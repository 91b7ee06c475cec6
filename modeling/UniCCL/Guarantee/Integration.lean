import UniCCL.Proof.Passing

/-! # Ranks of one launch form one communicator

For every order in which the processes of a launch act, and whatever the environment,
the native libraries, the device runtimes and the file system answer.
-/

namespace UniCCL.Integration

open CString Stdio Threads Main

/-! ## The launch keeps the contract -/

section Launch

variable (l : Launch)

/-- What `main` makes of the variables of `run_integration.sh`. -/
theorem configOf_rankEnv {k : Nat} (hk : k < l.world) :
    configOf (rankEnv l.inherited l.world l.uidFile k) =
      ⟨.ofNat l.world, .ofNat k, some l.uidFile⟩ := by
  have henv {name : CStr} {n : Nat} (dflt : CStr)
      (h : rankEnv l.inherited l.world l.uidFile k name = some (decimal n)) :
      envOr (rankEnv l.inherited l.world l.uidFile k) name dflt = decimal n := by
    unfold envOr
    rw [h]
    exact if_neg (decimalDigits_ne_nil n)
  have hsize : rankEnv l.inherited l.world l.uidFile k sizeVar = some (decimal l.world) := if_pos rfl
  have hrank : rankEnv l.inherited l.world l.uidFile k rankVar = some (decimal k) := by
    unfold rankEnv
    rw [if_neg (by decide), if_pos rfl]
  have hfile : rankEnv l.inherited l.world l.uidFile k uidFileVar = some l.uidFile := by
    unfold rankEnv
    rw [if_neg (by decide), if_neg (by decide), if_pos rfl]
  unfold configOf
  rw [henv _ hsize, henv _ hrank, hfile, atoi_decimal l.world_lt, atoi_decimal (hk.trans l.world_lt)]

theorem tmp_ne_uidFile (hname : l.uidFile.strlen + 1 < pathMax) : l.tmp ≠ l.uidFile := by
  intro heq
  have hsuffix : (CStr.lit ".tmp.").strlen = 5 := by decide
  have hlong : (l.uidFile ++ .lit ".tmp." ++ decimal (l.locals 0).pid).strlen =
      l.uidFile.strlen + 5 + (decimal (l.locals 0).pid).strlen := by
    rw [CStr.strlen_append, CStr.strlen_append, hsuffix]
  have hlen : min (pathMax - 1) (l.uidFile ++ .lit ".tmp." ++ decimal (l.locals 0).pid).strlen =
      l.uidFile.strlen := by
    rw [← congrArg CStr.strlen heq]
    exact List.length_take.symm
  omega

theorem start_inv {whole : Prop} (hname : whole → l.tmp ≠ l.uidFile) :
    Inv l whole l.start.store where
  ranks k := ⟨[], received_nil whole _, proper_start l.world k [] (l.devmem k)⟩
  file := by
    obtain ⟨f, hf, hcontent, hclosed, honly⟩ := l.uidFile_new
    intro g hg
    cases hf.symm.trans hg
    have hwritten : l.files.written f = [] := by
      rw [Files.written, hcontent, hclosed]
      rfl
    refine ⟨?_, fun hwhole => ⟨⟨l.files.named _ _ hf, hclosed, fun htmp => ?_⟩, .inl hcontent⟩⟩
    · show l.files.written f <+: _
      rw [hwritten]
      exact List.nil_prefix
    · exact hname hwhole (honly _ htmp)

def Ending (whole : Prop) (k : Nat) (rc : Int32) (t : Host) : Prop :=
  k < l.world → Outcome l whole k rc t

theorem program_keeps {whole : Prop} (hname : whole → l.tmp ≠ l.uidFile) (k : Nat) :
    Keeps l whole k (l.program k) (Ending l whole k) l.start.store := by
  unfold Launch.program
  split
  · rename_i hk
    unfold main
    split
    · exact fun _ _ _ _ => .inl rfl
    · exact (body_keeps hname (start_inv l hname) rfl hk (configOf_rankEnv l hk)).conseq
        fun _ _ _ h _ => h
  · rename_i hk
    exact fun _ _ _ hlt => absurd hlt hk

theorem launch_kept {whole : Prop} (hname : whole → l.tmp ≠ l.uidFile)
    (schedule : List (Nat × Answer)) (hok : ∀ x ∈ schedule, Unbroken whole x.2) :
    (rendezvous l whole).Kept act (Unbroken whole) (Ending l whole) (l.after schedule) :=
  Contract.Kept.run ⟨start_inv l hname, program_keeps l hname⟩ schedule hok

theorem launch_kept_any (schedule : List (Nat × Answer)) :
    (rendezvous l False).Kept act (Unbroken False) (Ending l False) (l.after schedule) :=
  launch_kept l False.elim schedule fun _ _ => False.elim

/-! ## Agreement -/

/-- Whenever a process of the launch enters the native `CommInitRank`, it is a rank of the
world and gives its own rank number, it has taken the device of that number, and the id
it hands in is the one that rank 0's native function wrote, as many bytes of it as an id
of the process's own backend has. -/
theorem ranks_join_one_world (schedule : List (Nat × Answer)) :
    let s := (l.after schedule).store
    ∃ bytes, ∀ k, ∀ x ∈ (s.ranks k).calls, x.1.2.op = some .commInitRank →
      ∀ f args rc, .native f args rc ∈ x.2.events →
        k < l.world ∧ OnDevice k (s.ranks k) ∧
        (∃ se, sessionOf (s.ranks 0).calls = some se ∧
          ∃ y ∈ (s.ranks 0).calls, Wrote se y bytes) ∧
        ∃ se, sessionOf (s.ranks k).calls = some se ∧
          se.family.uidBytes.toNat ≤ bytes.length ∧
          Joined se x (.ofNat l.world) (.ofNat k) (bytes.take se.family.uidBytes.toNat) rc := by
  have hinv : Inv l False (l.after schedule).store := (launch_kept_any l schedule).inv
  refine ⟨idBytes (l.after schedule).store, fun k x hx hop f args rc hmem => ?_⟩
  obtain ⟨b, ⟨hbegun, -⟩, hproper⟩ := hinv.ranks k
  obtain ⟨hk, hdevice, se, hse, hlen, hjoined⟩ := hproper.entered x hx hop f args rc hmem
  have hnonempty : b.length ≠ 0 := by
    rw [hlen]
    exact fun h => uidBytes_ne_zero se.family_mem (UInt64.toNat_inj.mp h)
  obtain ⟨_, -, hproper0⟩ := hinv.ranks 0
  have hobtained : idBytes (l.after schedule).store ≠ [] := fun h => by
    rw [h] at hbegun
    exact hnonempty (congrArg List.length (List.prefix_nil.mp hbegun))
  refine ⟨hk, hdevice, hproper0.wrote hobtained, se, hse, ?_, ?_⟩
  · rw [← hlen]
    exact hbegun.length_le
  · rw [← hlen, ← List.prefix_iff_eq_take.mp hbegun]
    exact hjoined

/-- The calls of every process come in order, every device call goes through a pointer
that is set, and the only device a rank ever takes is its own. -/
theorem ranks_keep_order (schedule : List (Nat × Answer)) (k : Nat) :
    let r := (l.after schedule).store.ranks k
    usageOf r.calls ≠ .misused ∧
      ∀ y ∈ r.issued, y.fn.isSome ∧ ∀ d, y.call = .setDevice d → d = .ofNat k := by
  obtain ⟨b, -, hproper⟩ := (launch_kept_any l schedule).inv.ranks k
  exact ⟨hproper.orderly, hproper.issued⟩

/-! ## The end -/

/-- Every process of a launch ends after at most 12020 actions of its own, with status 0
or 2. Status 0 means that it has joined the world and reduced over the communicator it
joined, both with success in the backend, that it has finalized in order, and that of all
libraries it opened only the device runtime is still open. -/
theorem ranks_settle (schedule : List (Nat × Answer)) (k : Nat) :
    let s := l.after schedule
    (12020 ≤ (schedule.map Prod.fst).count k → ∃ rc, s.threads k = .done rc) ∧
    (k < l.world → ∀ rc, s.threads k = .done rc → rc = 2 ∨ rc = 0 ∧
      IdleProcess (s.store.ranks k).proc ∧ usageOf (s.store.ranks k).calls = .closed ∧
      (∃ w c d, (s.store.ranks k).loads.getLast? = some w ∧
        (tryRuntimes w Candidate.all).2 = some (c, d) ∧
        (s.store.ranks k).devmem = c.table w d ∧
        Ledger.balance 0 (ledgerOf (s.store.ranks k).events) = some {d}) ∧
      ∃ se, sessionOf (s.store.ranks k).calls = some se ∧
        ∃ x ∈ (s.store.ranks k).calls, ∃ y ∈ (s.store.ranks k).calls,
          (∃ b, Joined se x (.ofNat l.world) (.ofNat k) b 0) ∧
          ReducedOver se y (x.2.commAfter .null)) := by
  refine ⟨fun hn => run_done act (program_endsIn l k) schedule hn, fun hk rc hdone => ?_⟩
  have hpost : Outcome l False k rc (l.after schedule).store :=
    (launch_kept_any l schedule).post hdone hk
  rcases hpost with hrc | ⟨hrc, b, -, hfinished⟩
  · exact .inl hrc
  · obtain ⟨d, ⟨w, c, hload, htaken, htable⟩, hresting⟩ := hfinished.resting
    obtain ⟨se, hse, x, hx, y, hy, hjoined, hreduced⟩ := hfinished.reduced
    exact .inr ⟨hrc, hresting.refines, hresting.usage,
      ⟨w, c, d, hload, htaken, htable, hresting.ledger⟩, se, hse, x, hx, y, hy, ⟨b, hjoined⟩,
      hreduced⟩

/-! ## Publication -/

theorem namesBelow_none : NamesBelow 0 fun _ => none := fun _ _ h => by cases h

def mktemp (path : CStr) : Files where
  dir := Function.update (fun _ => none) path (some 0)
  content _ := []
  buffered _ := none
  fresh := 1
  named := namesBelow_none.update (by decide) (by decide) path

theorem mktemp_dir (path path' : CStr) :
    (mktemp path).dir path' = if path' = path then some 0 else none :=
  Function.update_apply (fun _ : CStr => (none : Option Nat)) path (some 0) path'

def twoRanks : Launch where
  world := 2
  uidFile := .lit "/tmp/tmp.id"
  inherited _ := none
  locals k := ⟨⟨16⟩, ⟨⟨32⟩, ⟨0, fun _ => 0⟩⟩, ⟨48⟩, ⟨64⟩, ⟨80⟩, ⟨96⟩, ⟨112⟩, ⟨128⟩, 100 + k⟩
  devmem _ := ⟨none, none, none, none, none, none, none⟩
  files := mktemp (.lit "/tmp/tmp.id")
  world_lt := by decide
  uidFile_new := by
    refine ⟨0, by rw [mktemp_dir, if_pos rfl], rfl, rfl, fun path hpath => ?_⟩
    rw [mktemp_dir] at hpath
    by_contra hne
    rw [if_neg hne] at hpath
    cases hpath

/-- When no transfer is cut short and the file's name leaves room for the suffix, the
published file is empty or holds the whole id at every moment, and the ids that enter
the native `CommInitRank` are that id. -/
theorem publication_atomic (hname : l.uidFile.strlen + 1 < pathMax)
    (schedule : List (Nat × Answer))
    (hok : ∀ x ∈ schedule, uniccCommIdMax ≤ x.2.transferred ∧ uniccCommIdMax ≤ x.2.flushed) :
    let s := (l.after schedule).store
    (∀ f, s.files.dir l.uidFile = some f →
      s.files.content f = [] ∨ s.files.content f = obtained (s.ranks 0).calls) ∧
    ∀ k, ∀ x ∈ (s.ranks k).calls, x.1.2.op = some .commInitRank →
      ∀ f args rc, .native f args rc ∈ x.2.events → ∃ se, sessionOf (s.ranks k).calls = some se ∧
        Joined se x (.ofNat l.world) (.ofNat k) (obtained (s.ranks 0).calls) rc := by
  have hname' : True → l.tmp ≠ l.uidFile := fun _ => tmp_ne_uidFile l hname
  have hkept := launch_kept l hname' schedule fun x hx _ => hok x hx
  refine ⟨fun f hf => ((hkept.inv.file f hf).complete trivial).2, fun k x hx hop f args rc hmem => ?_⟩
  obtain ⟨b, ⟨-, hwhole⟩, hproper⟩ := hkept.inv.ranks k
  obtain ⟨-, -, se, hse, hlen, hjoined⟩ := hproper.entered x hx hop f args rc hmem
  rcases hwhole trivial with hempty | hall
  · rw [hempty] at hlen
    exact absurd (UInt64.toNat_inj.mp hlen.symm) (uidBytes_ne_zero se.family_mem)
  · rw [hall] at hjoined
    exact ⟨se, hse, hjoined⟩

theorem publication_atomic_twoRanks :
    let s := (twoRanks.after (List.replicate 9 (0, fairAnswer 2) ++
      List.replicate 20 (1, fairAnswer 2))).store
    (∀ f, s.files.dir twoRanks.uidFile = some f →
      s.files.content f = [] ∨ s.files.content f = obtained (s.ranks 0).calls) ∧
    ∀ k, ∀ x ∈ (s.ranks k).calls, x.1.2.op = some .commInitRank →
      ∀ f args rc, .native f args rc ∈ x.2.events → ∃ se, sessionOf (s.ranks k).calls = some se ∧
        Joined se x (.ofNat twoRanks.world) (.ofNat k) (obtained (s.ranks 0).calls) rc := by
  refine publication_atomic twoRanks (by decide) _ fun x hx => ?_
  rcases List.mem_append.mp hx with h | h <;> rw [List.eq_of_mem_replicate h] <;>
    exact ⟨Nat.le_refl _, Nat.le_refl _⟩

/-! ## Success -/

def Succeeding (k : Nat) (rc : Int32) (_ : Host) : Prop := k < l.world → rc = 0

/-- The numbers of actions within which rank 0 publishes and the others are in time; a
thread that is no rank may act as often as it likes. -/
def turns (early : List (Nat × Answer)) (k : Nat) : Nat :=
  if k = 0 then 9 else if k < l.world then 11996 else (early.map Prod.fst).count k

theorem start_blank : l.start.store.files.Blank l.uidFile := by
  obtain ⟨f, hf, hcontent, -⟩ := l.uidFile_new
  exact ⟨f, hf, hcontent⟩

theorem program_of_lt {k : Nat} (hk : k < l.world) :
    l.program k = body ⟨.ofNat l.world, .ofNat k, some l.uidFile⟩ (l.locals k) := by
  have hsize : (Int32.ofNat l.world).toInt = l.world := Int32.toInt_ofNat_of_lt l.world_lt
  have hnumber : (Int32.ofNat k).toInt = k := Int32.toInt_ofNat_of_lt (hk.trans l.world_lt)
  unfold Launch.program
  rw [if_pos hk, configOf_rankEnv l hk]
  refine if_neg ?_
  rw [ge_iff_le, Int32.lt_iff_toInt_lt, Int32.lt_iff_toInt_lt, Int32.le_iff_toInt_le, hsize, hnumber,
    Int32.toInt_zero, Int32.toInt_one]
  omega

theorem start_awaiting (d : BackendInfo) (early : List (Nat × Answer)) :
    (delivery l d).Awaiting act (Fair l.world d) (Delivered l d) (Succeeding l) 0 (turns l early)
      l.start := by
  have hlasting := delivered_lasting l d
  have hblank := start_blank l
  have hdone {k : Nat} (hk : ¬ k < l.world) :
      Delivers l d k (l.program k) (Succeeding l k) l.start.store := by
    unfold Launch.program
    rw [if_neg hk]
    exact fun _ _ _ hlt => absurd hlt hk
  refine ⟨hblank.offered _, ?_, fun k hk0 => ?_⟩
  · show Contract.Attains _ _ _ _ 0 _ 9 (l.program 0) _
    by_cases hk : 0 < l.world
    · rw [program_of_lt l hk]
      exact (body_attains (l.locals 0) hk rfl hblank rfl).conseq fun _ _ _ h _ => h
    · exact .of_safe hlasting (fun hw => absurd (Nat.lt_trans Nat.zero_lt_one hw) hk) (hdone hk)
  · show Contract.InTime _ _ _ _ k _ _ (l.program k) _
    by_cases hk : k < l.world
    · rw [program_of_lt l hk, turns, if_neg hk0, if_pos hk]
      exact (body_waits (l.locals k) hk hk0 rfl (hblank.offered _) rfl).conseq fun _ _ _ h _ => h
    · exact .of_safe (hdone hk)

/-- In surroundings that refuse nothing a launch passes, in whatever order its processes
act: it is enough that none of the other ranks has had more than 11996 turns when rank 0
has had nine, and that each rank gets turns until it ends. -/
theorem launch_passes (d : BackendInfo) (early late : List (Nat × Answer))
    (hfair : ∀ x ∈ early ++ late, Fair l.world d x.2)
    (hfirst : (early.map Prod.fst).count 0 = 9)
    (hearly : ∀ k, k ≠ 0 → k < l.world → (early.map Prod.fst).count k ≤ 11996)
    (hlong : ∀ k < l.world, 12020 ≤ ((early ++ late).map Prod.fst).count k) :
    passed l.world (l.after (early ++ late)) = true := by
  have hturns (k : Nat) : (early.map Prod.fst).count k ≤ turns l early k := by
    unfold turns
    split
    · rename_i hk0
      rw [hk0, hfirst]
    · rename_i hk0
      split
      · rename_i hk
        exact hearly k hk0 hk
      · exact Nat.le_refl _
  have hpublished := ((start_awaiting l d early).run early
    (fun x hx => hfair x (List.mem_append_left _ hx)) hturns).kept (by simp [turns, hfirst])
  have hkept := hpublished.run late fun x hx => hfair x (List.mem_append_right _ hx)
  rw [← run_append] at hkept
  refine List.all_eq_true.mpr fun k hk => ?_
  have hlt : k < l.world := List.mem_range.mp hk
  obtain ⟨rc, hrc⟩ := run_done act (c := l.start) (program_endsIn l k) (early ++ late) (hlong k hlt)
  have hzero : rc = 0 := hkept.post hrc hlt
  rw [hzero] at hrc
  exact decide_eq_true (congrArg exitOf hrc)

/-- Rank 1 waits for 2000 turns before rank 0 begins. -/
theorem launch_passes_twoRanks :
    passed twoRanks.world (twoRanks.after
      ((List.replicate 2000 (1, fairAnswer 2) ++ List.replicate 9 (0, fairAnswer 2)) ++
        (List.replicate 12020 (0, fairAnswer 2) ++ List.replicate 12020 (1, fairAnswer 2)))) =
      true := by
  refine launch_passes twoRanks ncclRow _ _ (fun x hx => ?_) ?_ (fun k hk0 hk => ?_) fun k hk => ?_
  · have he : x.2 = fairAnswer 2 := by
      simp only [List.mem_append, List.mem_replicate] at hx
      obtain (⟨-, rfl⟩ | ⟨-, rfl⟩) | (⟨-, rfl⟩ | ⟨-, rfl⟩) := hx <;> rfl
    rw [he]
    exact fair_fairAnswer
  · simp only [List.map_append, List.map_replicate, List.count_append, List.count_replicate]
    rfl
  · simp only [List.map_append, List.map_replicate, List.count_append, List.count_replicate]
    split <;> split <;> omega
  · have hk2 : k < 2 := hk
    simp only [List.map_append, List.map_replicate, List.count_append, List.count_replicate]
    obtain rfl | rfl : k = 0 ∨ k = 1 := by omega
    · decide
    · decide

end Launch

end UniCCL.Integration
