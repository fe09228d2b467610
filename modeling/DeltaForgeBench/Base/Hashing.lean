import DeltaForgeBench.Base.Text

/-! # A collision-free digest

The one property the programs rely on is that equal digests mean equal
bytes. `Digest` carries it as a field, together with the fact that a digest
is a non-empty text, so a result that assumes a good hash function quantifies
over `Digest` and states no hypothesis of its own. -/
namespace DeltaForgeBench.Base.Hashing
open DeltaForgeBench.Base.Text

/-- `hexdigest` of a hash object that was fed the given bytes. -/
structure Digest where
  hexdigest : ByteArray → Str
  nonempty : ∀ b, hexdigest b ≠ []
  injective : Function.Injective hexdigest

/-- `text.encode("utf-8")`. -/
def utf8 (t : Str) : ByteArray := (String.ofList t).toByteArray

@[simp] theorem utf8_nil : utf8 [] = ByteArray.empty := by simp [utf8]

theorem utf8_append (s t : Str) : utf8 (s ++ t) = utf8 s ++ utf8 t := by
  simp [utf8]

theorem utf8_injective : Function.Injective utf8 := by
  intro s t h
  simpa using congrArg String.toList (String.toByteArray_inj.mp h)

/-- Feeding a hash object line by line is feeding it the terminated lines at once. -/
theorem foldl_update (lines : List Str) (fed : Str) :
    lines.foldl (fun h line => (h ++ utf8 line) ++ utf8 ['\n']) (utf8 fed) =
      utf8 (fed ++ lines.flatMap (· ++ ['\n'])) := by
  induction lines generalizing fed with
  | nil => simp
  | cons line rest ih =>
    rw [List.foldl_cons, ← utf8_append, ← utf8_append, ih]
    simp

/-- A digest that spells the bytes out. -/
def spelled : Digest where
  hexdigest b := 'h' :: b.data.toList.map (fun u => Char.ofNat u.toNat)
  nonempty b := by simp
  injective := by
    intro a b h
    have byte : Function.Injective (fun u : UInt8 => Char.ofNat u.toNat) := by
      intro u v huv
      have hu := u.toNat_lt
      have hv := v.toNat_lt
      have valid : ∀ n, n < 256 → (Char.ofNat n).toNat = n := by decide +kernel
      apply UInt8.toNat_inj.mp
      rw [← valid _ hu, ← valid _ hv]
      exact congrArg Char.toNat huv
    have hdata := List.map_injective_iff.mpr byte (List.cons.inj h).2
    exact ByteArray.ext (Array.ext' hdata)

instance : Inhabited Digest := ⟨spelled⟩

end DeltaForgeBench.Base.Hashing
