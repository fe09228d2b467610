import DeltaForgeBench.DataGen.Fixtures

/-! # Fixtures after an interrupted build

The runner builds the fixtures of a workload when its directory of tables is
empty, and asks of the staged directory that it holds some parquet file. A build
that stopped between its first table and its last therefore passes for done,
except with SSB, whose marker comes after its tables. -/
namespace DeltaForgeBench.Runner.Recovery
open DeltaForgeBench.Base.Interrupt DeltaForgeBench.DataGen.Fixtures

variable (env : Environment) (spark : Spark) (scale : Int)

/-- `_ensure_tpch_delta`. -/
def ensureTpchDelta : Program World Unit := do
  ifFixture (.tpch scale) (·.parquet.isEmpty) (generateTpch env scale) (pure ())
  ifFixture (.tpch scale) (·.delta.isEmpty) (generateTpchDelta env spark scale) (pure ())

/-- `_ensure_delta_fixtures`. -/
def ensureDeltaFixtures : Suite → Program World Unit
  | .tpch => ensureTpchDelta env spark scale
  | .tpcds => generateTpcdsDelta env spark scale
  | .ssb => do
    ensureTpchDelta env spark scale
    generateSsbDelta env spark scale
  | .job => generateJobDelta env spark

/-- The build for one workload; `none` is one that requires no input data. -/
def buildFixtures : Option Suite → Program World Unit
  | none => pure ()
  | some s => ifFixture (s.folder scale) (·.delta.isEmpty)
      (ensureDeltaFixtures env spark scale s) (pure ())

def staged (d : Disk) : Option Suite → Bool
  | none => true
  | some s => !(d (s.folder scale)).parquet.isEmpty

/-- The fixture checks of `cmd_run`; a run whose checks end normally goes on to
its engines. -/
def checkFixtures (workloads : List (Option Suite)) : Program World Unit := do
  forEach (buildFixtures env spark scale) workloads
  let w ← get
  if workloads.all (staged scale w.disk) then pure () else halt .raised

/-- One invocation of the runner. -/
structure Attempt where
  env : Environment
  scale : Int
  workloads : List (Option Suite)

def Attempt.run (a : Attempt) (d : Disk) : Except Halt Unit × World :=
  checkFixtures a.env spark a.scale a.workloads { disk := d }

/-- What a history of attempts leaves on an empty disk. -/
def leave (history : List Attempt) : Disk :=
  history.foldl (fun d a => (a.run spark d).2.disk) fun _ => {}

/-- Every table the workload reads is there and completely written. -/
def Ready (s : Suite) (d : Disk) : Prop := Complete s.tables (d (s.folder scale)).delta

/-- Whichever later run with this workload gets past its checks finds the tables
completely written. -/
def Recovers (s : Suite) (d : Disk) : Prop :=
  ∀ a : Attempt, a.scale = scale → some s ∈ a.workloads →
    ∀ w, a.run spark d = (.ok (), w) → Ready scale s w.disk

/-- The directory a recovery can start from. -/
def Recoverable (s : Suite) (dir : Directory) : Prop :=
  s = .ssb ∨ dir = [] ∨ Complete s.tables dir

/-! ## One workload -/

def Sound (d : Disk) : Prop := ∀ f, Consistent f (d f)

variable {env spark scale}

/-- The disk is sound and in `A`. -/
def In (A : Disk → Prop) (w : World) : Prop := Sound w.disk ∧ A w.disk

/-- Work in one directory, seen on the whole disk. -/
theorem lift {f : Folder} {P Q : Disk → Fixture → Prop} {p : Program World Unit} {A B : Disk → Prop}
    (h : ∀ d, Works f (P d) (Q d) p) (pre : ∀ d, A d → P d (d f))
    (post : ∀ d x, A d → Q d x → B (Function.update d f x)) :
    Triple (In A) p (fun _ => In B) fun _ w => Sound w.disk := by
  refine Triple.of_states fun w ⟨hsound, hA⟩ => ?_
  have sound : ∀ {x w'}, Consistent f x → World.disk w' = Function.update w.disk f x →
      Sound w'.disk := by
    intro x w' hx hw f'
    rw [hw]
    by_cases hf : f' = f
    · subst hf
      simpa using hx
    · simpa [hf] using hsound f'
  refine (h w.disk w.disk).weaken ?_ ?_ ?_
  · rintro _ rfl
    exact ⟨_, pre _ hA, hsound f, (Function.update_eq_self f _).symm⟩
  · rintro _ w' ⟨x, hx, hc, hw⟩
    exact ⟨sound hc hw, hw ▸ post _ x hA hx⟩
  · rintro _ w' ⟨x, hc, hw⟩
    exact sound hc hw

theorem folder_injective {s s' : Suite} (h : s.folder scale = s'.folder scale) : s = s' := by
  simpa using congrArg Folder.suite h

/-- The TPC-H tables are left as they are, or built. -/
theorem ensureTpchDelta_works {dir : Directory} :
    Works (.tpch scale) (·.delta = dir)
      (fun x => x.delta = dir ∧ dir ≠ [] ∨ Complete Suite.tpch.tables x.delta)
      (ensureTpchDelta env spark scale) := by
  have parquet : Works (.tpch scale) (·.delta = dir) (·.delta = dir)
      (ifFixture (.tpch scale) (·.parquet.isEmpty) (generateTpch env scale) (pure ())) :=
    .ifAny (generateTpch_works scale) (.pure fun _ hx _ => hx)
  refine parquet.bind (.ifFixture ?_ (.pure fun x ⟨hx, hne⟩ _ => .inl ⟨hx, ?_⟩))
  · refine (generateTpchDelta_works scale).weaken (fun x ⟨_, hnil⟩ _ => ?_) fun _ hx => .inr hx
    simpa using hnil
  · simpa [hx] using hne

section
variable {K : Directory → Prop} {b : Suite} (hK : ∀ dir, Complete b.tables dir → K dir)
include hK

theorem kept_of_complete {s : Suite} {d : Disk} {x : Fixture}
    (hd : K (d (b.folder scale)).delta) (hx : Complete s.tables x.delta) :
    K (Function.update d (s.folder scale) x (b.folder scale)).delta := by
  by_cases hb : b = s
  · subst hb
    simpa using hK _ hx
  · have other : b.folder scale ≠ s.folder scale := fun e => hb (folder_injective e)
    simpa [other] using hd

/-- A build completes its own tables, and keeps of any benchmark what complete
tables would satisfy too. -/
theorem ensureDeltaFixtures_spec (s : Suite) :
    Triple (In fun d => K (d (b.folder scale)).delta ∧ (d (s.folder scale)).delta = [])
      (ensureDeltaFixtures env spark scale s)
      (fun _ => In fun d => K (d (b.folder scale)).delta ∧
        Complete s.tables (d (s.folder scale)).delta)
      fun _ w => Sound w.disk := by
  have built : ∀ {s : Suite} {p : Program World Unit},
      Works (s.folder scale) (·.delta = []) (fun x => Complete s.tables x.delta) p →
      Triple (In fun d => K (d (b.folder scale)).delta ∧ (d (s.folder scale)).delta = []) p
        (fun _ => In fun d => K (d (b.folder scale)).delta ∧
          Complete s.tables (d (s.folder scale)).delta) fun _ w => Sound w.disk := by
    intro s p hp
    refine lift (fun _ => hp) (fun d hd => hd.2) fun d x hd hx => ⟨kept_of_complete hK hd.1 hx, ?_⟩
    simpa using hx
  cases s with
  | tpch =>
    refine built (s := .tpch) (ensureTpchDelta_works.weaken (fun _ hx _ => hx) fun x hx => ?_)
    exact hx.resolve_left fun h => h.2 rfl
  | tpcds => exact built (s := .tpcds) (generateTpcdsDelta_works scale)
  | job => exact built (s := .job) generateJobDelta_works
  | ssb =>
    -- the TPC-H tables first: they are another directory
    have source : Triple
        (In fun d => K (d (b.folder scale)).delta ∧ (d (Suite.ssb.folder scale)).delta = [])
        (ensureTpchDelta env spark scale)
        (fun _ => In fun d => K (d (b.folder scale)).delta ∧
          (d (Suite.ssb.folder scale)).delta = []) fun _ w => Sound w.disk := by
      refine lift (fun d => @ensureTpchDelta_works env spark scale (d (.tpch scale)).delta)
        (fun d _ => rfl) fun d x hd hx => ⟨?_, by simpa [Suite.folder] using hd.2⟩
      rcases hx with ⟨hsame, -⟩ | hx
      · by_cases hb : b.folder scale = .tpch scale
        · simpa [hb, hsame] using hb ▸ hd.1
        · simpa [hb] using hd.1
      · exact kept_of_complete (s := .tpch) hK hd.1 hx
    exact source.bind fun _ => built (s := .ssb) (generateSsbDelta_works scale)

end

/-! ## A whole run -/

theorem Recoverable.of_complete {s : Suite} {dir : Directory} (h : Complete s.tables dir) :
    Recoverable s dir := .inr (.inr h)

/-- One workload of the run: the directory of `b` stays recoverable, and is not
empty once `b` has had its turn. -/
theorem buildFixtures_spec {b : Suite} (p : Prop) (workload : Option Suite) :
    Triple
      (In fun d => Recoverable b (d (b.folder scale)).delta ∧ (p → (d (b.folder scale)).delta ≠ []))
      (buildFixtures env spark scale workload)
      (fun _ => In fun d => Recoverable b (d (b.folder scale)).delta ∧
        (p ∨ workload = some b → (d (b.folder scale)).delta ≠ []))
      fun _ w => Sound w.disk := by
  cases workload with
  | none =>
    refine Triple.pure fun w hw => ⟨hw.1, hw.2.1, fun h => hw.2.2 ?_⟩
    exact h.resolve_right nofun
  | some s =>
    refine Triple.read fun w hw => Triple.ite (fun hempty => ?_) fun hfull => ?_
    · have hempty : (w.disk (s.folder scale)).delta = [] := by simpa using hempty
      have spec := @ensureDeltaFixtures_spec env spark scale
        (fun dir => Recoverable b dir ∧ (p → dir ≠ [])) b (fun dir h => ⟨.of_complete h, fun _ => h.ne_nil⟩) s
      refine spec.weaken (fun _ h => h ▸ ⟨hw.1, hw.2, hempty⟩) ?_ fun _ _ h => h
      rintro _ w' ⟨hsound, ⟨hrec, hp⟩, hcomplete⟩
      refine ⟨hsound, hrec, ?_⟩
      rintro (h | h)
      · exact hp h
      · obtain rfl := Option.some.inj h
        exact hcomplete.ne_nil
    · refine Triple.pure fun _ h => h ▸ ⟨hw.1, hw.2.1, ?_⟩
      rintro (h' | h')
      · exact hw.2.2 h'
      · obtain rfl := Option.some.inj h'
        simpa using hfull

theorem checkFixtures_spec {b : Suite} (workloads : List (Option Suite)) :
    Triple (In fun d => Recoverable b (d (b.folder scale)).delta)
      (checkFixtures env spark scale workloads)
      (fun _ => In fun d => some b ∈ workloads → Ready scale b d)
      fun _ w => Sound w.disk := by
  have loop : Triple _ (forEach (buildFixtures env spark scale) workloads) _ _ := Triple.forEach
    (fun done => In fun d => Recoverable b (d (b.folder scale)).delta ∧
      (some b ∈ done → (d (b.folder scale)).delta ≠ []))
    (R := fun _ w => Sound w.disk) workloads fun done workload _ =>
      (buildFixtures_spec (some b ∈ done) workload).weaken (fun _ h => h)
        (fun _ _ h => ⟨h.1, h.2.1, fun hmem => h.2.2 (by simpa [eq_comm] using hmem)⟩) fun _ _ h => h
  refine Triple.bind (loop.weaken (fun _ h => ⟨h.1, h.2, nofun⟩) (fun _ _ h => h) fun _ _ h => h)
    fun _ => Triple.read fun w ⟨hsound, hrec, hturn⟩ => Triple.ite (fun hstaged => ?_) fun _ => ?_
  · refine Triple.pure fun _ h => h ▸ ⟨hsound, fun hb => ?_⟩
    rcases hrec with rfl | hnil | hcomplete
    · -- the marker of SSB is there
      have marker : (w.disk (.ssb scale)).parquet ≠ [] := by
        simpa [staged, Suite.folder] using List.all_eq_true.mp hstaged _ hb
      exact hsound (.ssb scale) marker
    · exact absurd hnil (hturn hb)
    · exact hcomplete
  · exact Triple.halt fun _ h => h ▸ hsound

theorem Attempt.sound {a : Attempt} {d : Disk} (h : Sound d) : Sound (a.run spark d).2.disk := by
  have spec := @checkFixtures_spec a.env spark a.scale .ssb a.workloads { disk := d } ⟨h, .inl rfl⟩
  unfold Attempt.run
  split at spec
  · rename_i hrun
    exact hrun ▸ spec.1
  · rename_i hrun
    exact hrun ▸ spec

theorem leave_sound (history : List Attempt) : Sound (leave spark history) := by
  induction history using List.reverseRecOn with
  | nil =>
    intro f
    cases f with
    | ssb => exact fun h => absurd rfl h
    | _ => exact fun h => absurd rfl h
  | append_singleton history a ih =>
    rw [leave, List.foldl_append]
    exact Attempt.sound ih

/-- A directory with tables is passed over. -/
theorem run_skips (env : Environment) {s : Suite} {d : Disk} (hdelta : (d (s.folder scale)).delta ≠ [])
    (hparquet : (d (s.folder scale)).parquet ≠ []) :
    Attempt.run spark ⟨env, scale, [some s]⟩ d = (.ok (), { disk := d }) := by
  have tables : (d (s.folder scale)).delta.isEmpty = false := by simpa using hdelta
  have passes : [some s].all (staged scale d) = true := by simpa [staged] using hparquet
  have skip : buildFixtures env spark scale (some s) { disk := d } = (.ok (), { disk := d }) := by
    simp only [buildFixtures, ifFixture, Bind.bind, DeltaForgeBench.Base.Interrupt.get, tables]
    rfl
  simp only [Attempt.run, checkFixtures, forEach, Bind.bind, skip,
    DeltaForgeBench.Base.Interrupt.get, Pure.pure]
  exact congrFun (if_pos passes) (⟨d, 0⟩ : World)

/-- **After any history of interrupted attempts, a workload recovers exactly when
it is SSB or its tables are all missing or all completely written.** -/
theorem recovers_iff (spark : Spark) (history : List Attempt) (s : Suite) (scale : Int) :
    Recovers spark scale s (leave spark history) ↔
      s = .ssb ∨ (leave spark history (s.folder scale)).delta = [] ∨
        Ready scale s (leave spark history) := by
  have hsound : Sound (leave spark history) := leave_sound history
  constructor
  · intro h
    by_contra hnot
    obtain ⟨hssb, hdelta, hready⟩ : s ≠ .ssb ∧
        (leave spark history (s.folder scale)).delta ≠ [] ∧ ¬ Ready scale s (leave spark history) := by
      simpa only [not_or] using hnot
    have hparquet : (leave spark history (s.folder scale)).parquet ≠ [] := by
      have consistent := hsound (s.folder scale)
      cases s with
      | ssb => exact absurd rfl hssb
      | _ => exact consistent hdelta
    exact hready (h ⟨⟨fun _ => false, fun _ => true⟩, scale, [some s]⟩ rfl List.mem_cons_self _
      (run_skips _ hdelta hparquet))
  · rintro hrec ⟨env, scale, workloads⟩ rfl hmem w hrun
    have spec := @checkFixtures_spec env spark scale s workloads
      { disk := leave spark history } ⟨hsound, hrec⟩
    rw [show checkFixtures env spark scale workloads { disk := leave spark history } = (.ok (), w)
      from hrun] at spec
    exact spec.2 hmem

/-! ## A build stopped between two tables -/

/-- Reads what is complete. -/
def reader : Spark := ⟨fun m => m = .complete, rfl⟩

/-- The first run is killed before the second Delta table of TPC-H. -/
def stopped : Attempt :=
  { env := ⟨fun n => n = 20, fun _ => true⟩, scale := 1, workloads := [some .tpch] }

/-- The second run starts its engines on one table of eight. -/
theorem partial_fixture_passes :
    (leave reader [stopped] (.tpch 1)).delta = [("region".toList, .complete)] ∧
    ¬ ∀ (spark : Spark) (history : List Attempt) (s : Suite) (scale : Int),
      Recovers spark scale s (leave spark history) := by
  have tables : (leave reader [stopped] (.tpch 1)).delta = [("region".toList, .complete)] := rfl
  refine ⟨tables, fun h => ?_⟩
  have skips := @run_skips reader 1 ⟨fun _ => false, fun _ => true⟩ .tpch (leave reader [stopped])
    (tables ▸ List.cons_ne_nil _ _) (List.cons_ne_nil _ _)
  have lineitem := h reader [stopped] .tpch 1 _ rfl List.mem_cons_self _ skips
    "lineitem".toList List.mem_cons_self
  rw [show Suite.folder 1 .tpch = .tpch 1 from rfl, tables] at lineitem
  cases lineitem

end DeltaForgeBench.Runner.Recovery
