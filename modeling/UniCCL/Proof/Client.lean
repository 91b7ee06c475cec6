import UniCCL.Guarantee.Bootstrap
import UniCCL.Guarantee.Handles
import UniCCL.Spec.Usage

/-! # Programs over the wrapper

A process stands for an abstract state, a usage and the library handles it holds;
one API call moves all three as the abstract wrapper says. The rule for a call in a
program, and the contract of processes that share nothing.
-/

namespace UniCCL

open Threads

/-! ## What the monitor reads -/

theorem view_isOk (o : Output) : o.view.isOk = o.isOk := rfl

theorem note_view (u : Usage) (i : World × Call) (o : Output) :
    u.note (i, o.view) = u.note (i, o) := by
  cases u with
  | closed => rfl
  | opened held =>
      obtain ⟨w, c⟩ := i
      cases c <;> rfl
  | misused => rfl

theorem usageOf_snoc (calls : List ((World × Call) × Output)) (x : (World × Call) × Output) :
    usageOf (calls ++ [x]) = (usageOf calls).note x := by
  simp only [usageOf, Mealy.history, List.foldl_append, List.foldl_cons, List.foldl_nil]

/-- What a call in order makes of the communicators that are held: only
`unicc_comm_destroy` gives one up. -/
theorem noteOpened_cases (held : Multiset Ptr) (i : World × Call) (o : Output) :
    (Usage.opened held).note (i, o) = .misused ∨
      (held = 0 ∧ (Usage.opened held).note (i, o) = .closed) ∨
      ∃ held', (Usage.opened held).note (i, o) = .opened held' ∧
        ∀ comm ∈ held, comm ∈ held' ∨ i.2 = .commDestroy comm := by
  have hsame : ∃ held', Usage.opened held = .opened held' ∧
      ∀ comm ∈ held, comm ∈ held' ∨ i.2 = .commDestroy comm :=
    ⟨held, rfl, fun _ h => .inl h⟩
  obtain ⟨w, c⟩ := i
  cases c with
  | init => exact .inl rfl
  | finalize =>
      by_cases hdone : held = 0 ∧ o.isOk
      · exact .inr (.inl ⟨hdone.1, if_pos hdone⟩)
      · exact .inl (if_neg hdone)
  | commInitRank ref nranks id rank =>
      refine .inr (.inr ?_)
      by_cases hok : o.isOk
      · exact ⟨o.madeComm ref ::ₘ held, if_pos hok, fun _ h => .inl (Multiset.mem_cons_of_mem h)⟩
      · exact ⟨held, if_neg hok, fun _ h => .inl h⟩
  | commDestroy comm =>
      by_cases hheld : comm ∈ held
      · refine .inr (.inr ⟨held.erase comm, ?_, fun comm' h => ?_⟩)
        · simp [Usage.note, Usage.noteOpened, Ledger.post, hheld]
        · by_cases hsame : comm' = comm
          · exact .inr (by rw [hsame])
          · exact .inl ((Multiset.mem_erase_of_ne hsame).mpr h)
      · refine .inl ?_
        simp [Usage.note, Usage.noteOpened, Ledger.post, hheld]
  | commCount comm _ | commUserRank comm _ | allreduce _ _ _ _ _ comm _ | broadcast _ _ _ _ comm _ =>
      by_cases hheld : comm ∈ held
      · exact .inr (.inr ⟨held, if_pos hheld, fun _ h => .inl h⟩)
      · exact .inl (if_neg hheld)
  | _ => exact .inr (.inr hsame)

theorem history_misused (calls : List ((World × Call) × Output)) :
    Mealy.history Usage.note .misused calls = .misused := by
  induction calls with
  | nil => rfl
  | cons x calls ih => exact ih

theorem destroyed_of_held {held : Multiset Ptr} {comm : Ptr} (hcomm : comm ∈ held)
    {calls : List ((World × Call) × Output)}
    (h : Mealy.history Usage.note (.opened held) calls = .closed) :
    ∃ y ∈ calls, y.1.2 = .commDestroy comm := by
  induction calls generalizing held with
  | nil => cases h
  | cons x calls ih =>
      obtain ⟨i, o⟩ := x
      have hrest : Mealy.history Usage.note ((Usage.opened held).note (i, o)) calls = .closed := h
      rcases noteOpened_cases held i o with hmisused | ⟨rfl, -⟩ | ⟨held', hnote, hkept⟩
      · rw [hmisused, history_misused] at hrest
        cases hrest
      · exact absurd hcomm (Multiset.notMem_zero comm)
      · rw [hnote] at hrest
        rcases hkept comm hcomm with hheld | hdestroyed
        · obtain ⟨y, hy, hdestroyed⟩ := ih hheld hrest
          exact ⟨y, List.mem_cons_of_mem _ hy, hdestroyed⟩
        · exact ⟨_, List.mem_cons_self, hdestroyed⟩

theorem destroyed_of_closed {before after : List ((World × Call) × Output)}
    {x : (World × Call) × Output} (h : usageOf (before ++ x :: after) = .closed) {comm : Ptr}
    (hmade : Made x comm) : ∃ y ∈ after, y.1.2 = .commDestroy comm := by
  obtain ⟨⟨w, c⟩, o⟩ := x
  obtain ⟨ref, nranks, id, rank, hc, hok, rfl⟩ := hmade
  cases hc
  have hrest : Mealy.history Usage.note
      ((usageOf before).note ((w, .commInitRank ref nranks id rank), o)) after = .closed := by
    rw [← h]
    simp only [usageOf, Mealy.history, List.foldl_append, List.foldl_cons]
  cases hu : usageOf before with
  | closed =>
      rw [hu] at hrest
      cases (history_misused after).symm.trans hrest
  | misused =>
      rw [hu] at hrest
      cases (history_misused after).symm.trans hrest
  | opened held =>
      rw [hu] at hrest
      have hnote : (Usage.opened held).note ((w, .commInitRank ref nranks id rank), o) =
          .opened (o.madeComm ref ::ₘ held) := if_pos hok
      rw [hnote] at hrest
      exact destroyed_of_held (Multiset.mem_cons_self _ _) hrest

theorem sessionOf_of_recorded {calls calls' : List ((World × Call) × Output)} {s : Session}
    (h : sessionOf calls = some s) (hcalls : calls <+: calls') : sessionOf calls' = some s := by
  obtain ⟨more, rfl⟩ := hcalls
  cases calls with
  | nil => cases h
  | cons x rest =>
      obtain ⟨⟨w, c⟩, o⟩ := x
      cases c <;> exact h

/-! ## One call of a process -/

/-- What a process stands for: an abstract state, a usage, and the handles it holds
besides the one of its session. -/
structure Standing (r : Rank) (a : Abstract) (u : Usage) (m : Multiset Handle) : Prop where
  refines : Refines r.proc a
  usage : usageOf r.calls = u
  ledger : Ledger.balance 0 (ledgerOf r.events) = some (a.owned + m)

theorem standing_start (devmem : Devmem) : Standing (.start devmem) .idle .closed 0 :=
  ⟨idle_start, rfl, rfl⟩

section Call

variable {r : Rank} {a : Abstract} {u : Usage} {m : Multiset Handle} {w : World} {c : Call}

theorem Standing.view (h : Standing r a u m) :
    (r.call w c).2.view = (abstractStep .linux a w c).2 :=
  (wrapper_simulation .linux).output r.proc a (w, c) h.refines

theorem Standing.call (h : Standing r a u m) :
    Standing (r.call w c).1 (abstractStep .linux a w c).1
      (u.note ((w, c), (abstractStep .linux a w c).2)) m where
  refines := (wrapper_simulation .linux).state r.proc a (w, c) h.refines
  usage := by
    show usageOf (r.calls ++ [((w, c), (r.call w c).2)]) = _
    rw [usageOf_snoc, h.usage, ← note_view, h.view]
  ledger := by
    have hstep : ledgerOf (r.call w c).2.events =
        ledgerOf (abstractStep .linux a w c).2.events := by
      rw [← ledgerOf_visible]
      exact congrArg (fun o => ledgerOf o.events) h.view
    show Ledger.balance 0 (ledgerOf (r.events ++ (r.call w c).2.events)) = _
    rw [ledgerOf_append, Ledger.balance_append, h.ledger, hstep]
    exact Ledger.balance_add m (balance_step .linux a w c)

end Call

/-! ## Sessions in use -/

/-- The process has session `s` open, has made no call out of order and holds these
communicators and, besides the session's, these library handles. -/
def Using (r : Rank) (s : Session) (held : Multiset Ptr) (m : Multiset Handle) : Prop :=
  ∃ e, Standing r (.live s e) (.opened held) m

def Resting (r : Rank) (m : Multiset Handle) : Prop := Standing r .idle .closed m

def Orderly (r : Rank) : Prop := usageOf r.calls ≠ .misused

theorem Using.orderly {r : Rank} {s : Session} {held : Multiset Ptr} {m : Multiset Handle}
    (h : Using r s held m) : Orderly r := by
  obtain ⟨e, h⟩ := h
  unfold Orderly
  rw [h.usage]
  exact Usage.noConfusion

theorem Resting.orderly {r : Rank} {m : Multiset Handle} (h : Resting r m) : Orderly r := by
  unfold Orderly
  rw [Standing.usage h]
  exact Usage.noConfusion

section Calls

variable {r : Rank} {s : Session} {held : Multiset Ptr} {m : Multiset Handle} {c : Call}

/-- While a session is open, each call is answered by the session, and it stays open
until `unicc_finalize`. -/
theorem Using.call (h : Using r s held m) (hinit : c ≠ .init) (hfin : c ≠ .finalize) (w : World) :
    ∃ e e', (r.call w c).2.view = (abstractStep .linux (.live s e) w c).2 ∧
      Standing (r.call w c).1 (.live s e')
        ((Usage.opened held).note ((w, c), (abstractStep .linux (.live s e) w c).2)) m := by
  obtain ⟨e, h⟩ := h
  have hnext := h.call (w := w) (c := c)
  have hsession : (abstractStep .linux (.live s e) w c).1.session? = some s :=
    abstractStep_session hinit hfin (.live s e) w
  cases ha : (abstractStep .linux (.live s e) w c).1 with
  | idle =>
      rw [ha] at hsession
      cases hsession
  | live s' e' =>
      rw [ha] at hsession hnext
      cases hsession
      exact ⟨e, e', h.view, hnext⟩

/-- A call that makes and destroys no communicator and works on none but those held. -/
structure Neutral (held : Multiset Ptr) (c : Call) : Prop where
  init : c ≠ .init
  finalize : c ≠ .finalize
  make : c.op ≠ some .commInitRank
  destroy : c.op ≠ some .commDestroy
  held : ∀ comm, c.worksOn = some comm → comm ∈ held

/-- Getters, gates and the diagnosis. -/
structure Call.Reports (c : Call) : Prop where
  op : c.op = none
  init : c ≠ .init
  finalize : c ≠ .finalize

theorem worksOn_of_report (hop : c.op = none) : c.worksOn = none := by
  cases c <;> first | rfl | cases hop

theorem Call.Reports.neutral (h : c.Reports) : Neutral held c where
  init := h.init
  finalize := h.finalize
  make := by
    rw [h.op]
    exact nofun
  destroy := by
    rw [h.op]
    exact nofun
  held comm hworks := by
    rw [worksOn_of_report h.op] at hworks
    cases hworks

theorem neutral_of_none {op : Op} (hop : c.op = some op) (hmake : op ≠ .commInitRank)
    (hdestroy : op ≠ .commDestroy) (hworks : c.worksOn = none) : Neutral held c where
  init h := by
    rw [h] at hop
    cases hop
  finalize h := by
    rw [h] at hop
    cases hop
  make h := hmake (Option.some.inj (hop.symm.trans h))
  destroy h := hdestroy (Option.some.inj (hop.symm.trans h))
  held comm h := by
    rw [hworks] at h
    cases h

theorem neutral_of_held {op : Op} {comm : Ptr} (hop : c.op = some op) (hmake : op ≠ .commInitRank)
    (hdestroy : op ≠ .commDestroy) (hworks : c.worksOn = some comm) (hheld : comm ∈ held) :
    Neutral held c where
  init h := by
    rw [h] at hop
    cases hop
  finalize h := by
    rw [h] at hop
    cases hop
  make h := hmake (Option.some.inj (hop.symm.trans h))
  destroy h := hdestroy (Option.some.inj (hop.symm.trans h))
  held comm' h := by
    rw [← Option.some.inj (hworks.symm.trans h)]
    exact hheld

theorem Neutral.note (h : Neutral held c) (w : World) (o : Output) :
    (Usage.opened held).note ((w, c), o) = .opened held := by
  have hheld := h.held
  cases c <;> first
    | rfl
    | exact absurd rfl h.init
    | exact absurd rfl h.finalize
    | exact absurd rfl h.make
    | exact absurd rfl h.destroy
    | exact if_pos (hheld _ rfl)

theorem Using.neutral (h : Using r s held m) (hc : Neutral held c) (w : World) :
    Using (r.call w c).1 s held m := by
  obtain ⟨e, e', -, hnext⟩ := h.call hc.init hc.finalize w
  rw [hc.note] at hnext
  exact ⟨e', hnext⟩

theorem Using.make (h : Using r s held m) (comm : Option (Ref Ptr)) (nranks : Int32)
    (id : Option (Ref CommId)) (rank : Int32) (w : World) :
    let x := r.call w (.commInitRank comm nranks id rank)
    Using x.1 s (if x.2.isOk then x.2.madeComm comm ::ₘ held else held) m := by
  obtain ⟨e, e', hview, hnext⟩ := h.call (c := .commInitRank comm nranks id rank)
    Call.noConfusion Call.noConfusion w
  rw [← hview, note_view] at hnext
  dsimp only
  refine ⟨e', ?_⟩
  have hnote : (Usage.opened held).note ((w, .commInitRank comm nranks id rank),
      (r.call w (.commInitRank comm nranks id rank)).2) =
        .opened (if (r.call w (.commInitRank comm nranks id rank)).2.isOk then
          (r.call w (.commInitRank comm nranks id rank)).2.madeComm comm ::ₘ held else held) := by
    show (if _ then _ else _) = _
    split <;> rfl
  rw [← hnote]
  exact hnext

theorem Using.destroy {comm : Ptr} (h : Using r s (comm ::ₘ held) m) (w : World) :
    Using (r.call w (.commDestroy comm)).1 s held m := by
  obtain ⟨e, e', -, hnext⟩ := h.call (c := .commDestroy comm) Call.noConfusion Call.noConfusion w
  have hnote : (Usage.opened (comm ::ₘ held)).note ((w, .commDestroy comm),
      (abstractStep .linux (.live s e) w (.commDestroy comm)).2) = .opened held := by
    simp [Usage.note, Usage.noteOpened, Ledger.post]
  rw [hnote] at hnext
  exact ⟨e', hnext⟩

theorem Using.finalize (h : Using r s 0 m) (w : World) :
    (r.call w .finalize).2.isOk = true ∧ Resting (r.call w .finalize).1 m := by
  obtain ⟨e, h⟩ := h
  have hok : (r.call w .finalize).2.isOk = true := by
    rw [← view_isOk, h.view]
    rfl
  exact ⟨hok, h.call (w := w) (c := .finalize)⟩

theorem Resting.init (h : Resting r m) (w : World) :
    ((r.call w .init).2.isOk = true ∧
      ∃ s, (openSession .linux w).session = some s ∧ Using (r.call w .init).1 s 0 m) ∨
    ((r.call w .init).2.isOk = false ∧ (openSession .linux w).session = none ∧
      Resting (r.call w .init).1 m) := by
  have hview := Standing.view (w := w) (c := .init) h
  have hnext := Standing.call (w := w) (c := .init) h
  have hspec := openSession_spec .linux w
  have hret : (r.call w .init).2.isOk = ((openSession .linux w).rc.code == UniccResult.ok.code) := by
    rw [← view_isOk, hview]
    rfl
  have hnote : Usage.closed.note ((w, .init), (abstractStep .linux .idle w .init).2) =
      if (r.call w .init).2.isOk then .opened 0 else .closed := by
    rw [hret]
    rfl
  have hstep : (abstractStep .linux .idle w .init).1 = (openSession .linux w).next := rfl
  rw [hnote, hstep, Opening.next] at hnext
  cases hs : (openSession .linux w).session with
  | some s =>
      rw [hs] at hspec hnext
      have hok : (r.call w .init).2.isOk = true := by
        rw [hret, hspec.1]
        rfl
      rw [if_pos hok] at hnext
      exact .inl ⟨hok, s, rfl, 0, hnext⟩
  | none =>
      rw [hs] at hspec hnext
      have hfail : (r.call w .init).2.isOk = false := by
        rw [hret, beq_eq_false_iff_ne, ne_eq, UniccResult.code_inj]
        exact hspec
      rw [if_neg (by rw [hfail]; exact Bool.false_ne_true)] at hnext
      exact .inr ⟨hfail, rfl, hnext⟩

end Calls

/-! ## What a session answers -/

theorem native_mem_view {o : Output} {f : FnPtr} {args : List CArg} {rc : Int32} :
    .native f args rc ∈ o.view.events ↔ .native f args rc ∈ o.events := by
  show _ ∈ o.events.filter _ ↔ _
  rw [List.mem_filter]
  exact and_iff_left rfl

theorem backing_of_core (s : Session) {op : Op} (hop : op ∈ Op.core) : (s.backing op).isSome := by
  have hhas : s.family.has op = true := by
    have hall : ∀ d ∈ uniccBackends, ∀ op ∈ Op.core, d.has op = true := by decide
    exact hall _ s.family_mem op hop
  rw [Session.backing, backing, if_pos hhas]
  exact s.core op hop

section Answers

variable {r : Rank} {s : Session} {held : Multiset Ptr} {m : Multiset Handle} {c : Call} {op : Op}

theorem Using.operate (h : Using r s held m) (hop : c.op = some op) (w : World) :
    ∃ e, (r.call w c).2.view = (UniCCL.operate w s e op c).2 := by
  obtain ⟨e, h⟩ := h
  refine ⟨e, ?_⟩
  rw [h.view, abstractStep_operation_live hop]

theorem Using.unsupported (h : Using r s held m) (hop : c.op = some op)
    (hb : s.backing op = none) (w : World) : (r.call w c).2.view = refuse c .errNotSupported := by
  obtain ⟨e, hview⟩ := h.operate hop w
  rw [hview, operate_unsupported hb]

theorem Using.dispatched (h : Using r s held m) (hop : c.op = some op) {f : FnPtr}
    (hb : s.backing op = some f) (hok : c.argsValid ∧ c.idFits s.family) (w : World) :
    (r.call w c).2.view = ⟨.int (unifiedCode (w.invoke f (c.directArgs s.family)).rc),
      c.outAfter s.family (w.invoke f (c.directArgs s.family)),
      [.native f (c.directArgs s.family) (w.invoke f (c.directArgs s.family)).rc]⟩ := by
  obtain ⟨e, hview⟩ := h.operate hop w
  rw [hview, operate_dispatched hb hok]

theorem Using.native (h : Using r s held m) (hop : c.op = some op) {w : World} {f : FnPtr}
    {args : List CArg} {rc : Int32} (hmem : .native f args rc ∈ (r.call w c).2.events) :
    s.backing op = some f ∧ c.argsValid ∧ c.idFits s.family ∧ args = c.directArgs s.family ∧
      rc = (w.invoke f args).rc := by
  obtain ⟨e, hview⟩ := h.operate hop w
  rw [← native_mem_view, hview] at hmem
  cases hb : s.backing op with
  | none =>
      rw [operate_unsupported hb] at hmem
      cases hmem
  | some g =>
      by_cases hok : c.argsValid ∧ c.idFits s.family
      · rw [operate_dispatched hb hok] at hmem
        cases List.mem_singleton.mp hmem
        exact ⟨rfl, hok.1, hok.2, rfl, rfl⟩
      · rw [operate_invalid hb hok] at hmem
        cases hmem

theorem isOk_of_ret {o : Output} {rc : Int32} (h : o.ret = .int rc) :
    o.isOk = true ↔ rc = UniccResult.ok.code := by
  unfold Output.isOk Output.code
  rw [h]
  exact beq_iff_eq

theorem Using.succeeded (h : Using r s held m) (hop : c.op = some op) {w : World}
    (hok : (r.call w c).2.isOk = true) :
    ∃ f, s.backing op = some f ∧ c.argsValid ∧ c.idFits s.family ∧
      (w.invoke f (c.directArgs s.family)).rc = 0 ∧
      (r.call w c).2.view = ⟨rcOf .ok, c.outAfter s.family (w.invoke f (c.directArgs s.family)),
        [.native f (c.directArgs s.family) 0]⟩ := by
  obtain ⟨e, hview⟩ := h.operate hop w
  rw [← view_isOk, hview] at hok
  cases hb : s.backing op with
  | none =>
      rw [operate_unsupported hb] at hok
      cases hok
  | some f =>
      by_cases hargs : c.argsValid ∧ c.idFits s.family
      · rw [operate_dispatched hb hargs] at hok hview
        have hrc := unifiedCode_eq_ok.mp ((isOk_of_ret rfl).mp hok)
        rw [hrc] at hview
        exact ⟨f, rfl, hargs.1, hargs.2, hrc, hview⟩
      · rw [operate_invalid hb hargs] at hok
        cases hok

theorem exported_of_backing {op : Op} {f : FnPtr} (hb : s.backing op = some f) :
    s.exported op = some f := backing_some hb

theorem Using.uniqueId (h : Using r s held m) (id : Ref CommId)
    (hok : (r.call w (.getUniqueId (some id))).2.isOk = true) :
    let o := (r.call w (.getUniqueId (some id))).2
    (o.idAfter id.val).len = s.family.uidBytes ∧
      Wrote s ((w, .getUniqueId (some id)), o)
        ((o.idAfter id.val).load (o.idAfter id.val).len.toNat) := by
  dsimp only
  obtain ⟨f, hf, -, -, hrc, hview⟩ := h.succeeded rfl hok
  obtain ⟨after, hafter, hhanded⟩ := outAfter_getUniqueId s.family
    (w.invoke f ((Call.getUniqueId (some id)).directArgs s.family)) id
  rw [IdHandedOut, if_pos hrc] at hhanded
  obtain ⟨hlen, hdata⟩ := hhanded
  have hid : (r.call w (.getUniqueId (some id))).2.idAfter id.val = after := by
    show (r.call w (.getUniqueId (some id))).2.view.idAfter id.val = after
    rw [hview, hafter]
    rfl
  have hload : after.load s.family.uidBytes.toNat = _ :=
    CommId.load_of_agree (uidBytes_le_max s.family_mem) fun k hk => by rw [hdata k, if_pos hk]
  have hlength : (after.load s.family.uidBytes.toNat).length = s.family.uidBytes.toNat := by
    rw [hload, List.length_map, List.length_range]
  rw [hid, hlen]
  refine ⟨rfl, rfl, hlength, f, exported_of_backing hf, ?_, ?_⟩
  · rw [← native_mem_view, hview, hlength]
    exact List.mem_singleton_self _
  · rw [hlength]
    exact hload

theorem Using.joined (h : Using r s held m) {comm : Option (Ref Ptr)} {nranks rank : Int32}
    {id : Ref CommId} {f : FnPtr} {args : List CArg} {rc : Int32}
    (hmem : .native f args rc ∈ (r.call w (.commInitRank comm nranks (some id) rank)).2.events) :
    Joined s ((w, .commInitRank comm nranks (some id) rank),
      (r.call w (.commInitRank comm nranks (some id) rank)).2) nranks rank
        (id.val.load id.val.len.toNat) rc := by
  obtain ⟨hf, hargs, hfits, hdirect, -⟩ := h.native rfl hmem
  obtain ⟨hcomm, hn, -⟩ := hargs
  obtain ⟨comm, rfl⟩ := Option.isSome_iff_exists.mp hcomm
  have hlen : id.val.len = s.family.uidBytes := hfits
  refine ⟨rfl, f, comm.addr, Call.nranksArg s.family nranks, exported_of_backing hf, ?_,
    value_nranksArg s.family hn⟩
  rw [hdirect] at hmem
  rw [hlen, CommId.load_eq id.val (uidBytes_le_max s.family_mem)]
  exact hmem

theorem Using.reduced (h : Using r s held m) {sendbuf recvbuf comm stream : Ptr} {count : UInt64}
    {datatype op : UInt32}
    (hok : (r.call w (.allreduce sendbuf recvbuf count datatype op comm stream)).2.isOk = true) :
    ReducedOver s ((w, .allreduce sendbuf recvbuf count datatype op comm stream),
      (r.call w (.allreduce sendbuf recvbuf count datatype op comm stream)).2) comm := by
  obtain ⟨f, hf, -, -, -, hview⟩ := h.succeeded rfl hok
  refine ⟨rfl, rfl, f, [.ptr sendbuf, .ptr recvbuf, .size count, .int datatype.toInt32,
    .int op.toInt32, .ptr comm, .ptr stream], exported_of_backing hf, ?_, by simp⟩
  rw [← native_mem_view, hview]
  exact List.mem_singleton_self _

end Answers

/-! ## Programs of one process -/

/-- What an action may do to the process that performs it; files reply anything. -/
def Rank.Does (i : Action) (r r' : Rank) (reply : i.Reply) : Prop :=
  match i, reply with
  | .api c, o => ∃ w, r.call w c = (r', o)
  | .devmemLoad, rc => ∃ w, r.load w = (r', rc)
  | .device c, reply => r' = r.issue c reply
  | _, _ => r' = r

theorem act_does (k : Nat) (i : Action) (e : Answer) (s : Host) :
    Rank.Does i (s.ranks k) ((act k i e s).1.ranks k) (act k i e s).2 := by
  cases i with
  | api c =>
      refine ⟨e.world, ?_⟩
      simp only [act, Host.setRank_ranks_self]
      rfl
  | devmemLoad =>
      refine ⟨e.world, ?_⟩
      simp only [act, Host.setRank_ranks_self]
      rfl
  | device c => simp only [Rank.Does, act, Host.setRank_ranks_self]
  | _ => rfl

theorem act_ranks {j k : Nat} (hj : j ≠ k) (i : Action) (e : Answer) (s : Host) :
    (act k i e s).1.ranks j = s.ranks j := by
  cases i <;> first | rfl | exact Host.setRank_ranks_of_ne s hj _

theorem does_calls {i : Action} {r r' : Rank} {reply : i.Reply} (h : Rank.Does i r r' reply) :
    r.calls <+: r'.calls := by
  cases i with
  | api c =>
      obtain ⟨w, hcall⟩ := h
      have hr : r' = (r.call w c).1 := (congrArg Prod.fst hcall).symm
      exact hr ▸ List.prefix_append _ _
  | devmemLoad =>
      obtain ⟨w, hload⟩ := h
      have hr : r' = (r.load w).1 := (congrArg Prod.fst hload).symm
      exact hr ▸ List.prefix_rfl
  | device c =>
      have hr : r' = r.issue c reply := h
      exact hr ▸ List.prefix_rfl
  | _ =>
      have hr : r' = r := h
      exact hr ▸ List.prefix_rfl

theorem always_recorded {α : Type} {G : Action → Rank → Rank → Prop} {Q : α → Rank → Prop}
    {p : Main α} {r : Rank} (h : p.Always Rank.Does G Q r) :
    p.Always Rank.Does G (fun a r' => Q a r' ∧ r.calls <+: r'.calls) r :=
  h.along (fun r r' : Rank => r.calls <+: r'.calls) (fun _ => List.prefix_rfl)
    (fun s s' s'' (h : s.calls <+: s'.calls) (h' : s'.calls <+: s''.calls) => h.trans h')
    fun _ _ _ _ hdoes _ => does_calls hdoes

section Rules

variable {α : Type} {G : Action → Rank → Rank → Prop} {Q : α → Rank → Prop} {r : Rank}

theorem always_api {c : Call} {f : Output → Main α}
    (h : ∀ w, G (.api c) r (r.call w c).1 ∧
      (f (r.call w c).2).Always Rank.Does G Q (r.call w c).1) :
    (Main.api c >>= f).Always Rank.Does G Q r := by
  rintro r' o ⟨w, hcall⟩
  have hw := h w
  rw [hcall] at hw
  exact hw

theorem always_devmemLoad {f : Int32 → Main α}
    (h : ∀ w, G .devmemLoad r (r.load w).1 ∧
      (f (r.load w).2).Always Rank.Does G Q (r.load w).1) :
    (Main.devmemLoad >>= f).Always Rank.Does G Q r := by
  rintro r' rc ⟨w, hload⟩
  have hw := h w
  rw [hload] at hw
  exact hw

theorem always_device {c : DeviceCall} {f : DeviceReply → Main α}
    (h : ∀ reply, G (.device c) r (r.issue c reply) ∧
      (f reply).Always Rank.Does G Q (r.issue c reply)) :
    (Main.device c >>= f).Always Rank.Does G Q r := by
  rintro r' reply hissue
  rw [show r' = r.issue c reply from hissue]
  exact h reply

theorem endsIn_api {c : Call} {f : Output → Main α} {n : Nat} (h : ∀ o, (f o).EndsIn n) :
    (Main.api c >>= f).EndsIn (n + 1) := .first (fun _ => trivial) h

end Rules

/-! ## Processes that share nothing -/

/-- Every process keeps `I`, and none touches another. -/
def apart (I : Rank → Prop) : Contract Nat Host where
  inv s := ∀ k, I (s.ranks k)
  rely k s t := t.ranks k = s.ranks k
  guarantee k s t := ∀ j, j ≠ k → t.ranks j = s.ranks j
  rely_refl _ _ := rfl
  rely_trans _ _ _ _ hst htu := htu.trans hst
  rely_of_guarantee _ j _ _ hj _ _ h := h j hj

theorem apart_safe {α : Type} {I : Rank → Prop} {k : Nat} {Q : α → Rank → Prop} {p : Main α}
    {s : Host} (h : p.Always Rank.Does (fun _ _ r => I r) Q (s.ranks k)) :
    (apart I).Safe act (fun _ => True) k (fun a t => Q a (t.ranks k)) p s := by
  have hkeep (i : Action) (e : Answer) (t : Host) (hinv : (apart I).inv t)
      (hown : I ((act k i e t).1.ranks k)) :
      (apart I).inv (act k i e t).1 ∧ (apart I).guarantee k t (act k i e t).1 := by
    have hothers : ∀ j, j ≠ k → (act k i e t).1.ranks j = t.ranks j :=
      fun j hj => act_ranks hj i e t
    refine ⟨fun j => ?_, hothers⟩
    by_cases hj : j = k
    · rw [hj]
      exact hown
    · show I ((act k i e t).1.ranks j)
      rw [hothers j hj]
      exact hinv j
  have hsafe : (apart I).Safe act (fun _ => True) k (fun a t => Q a (t.ranks k) ∧ True) p s :=
    Contract.Safe.of_always (fun t : Host => t.ranks k) (fun _ _ hst => hst)
      (fun _ _ _ _ => trivial) (fun i e t _ => act_does k i e t)
      (fun i e t _ hinv _ hown => ⟨(hkeep i e t hinv hown).1, (hkeep i e t hinv hown).2, trivial⟩)
      trivial h
  exact hsafe.conseq fun _ _ _ h => h.1

/-- Programs that keep `I` each of its own process, in any interleaving: `I` holds of
every process all along, and each program ends where its postcondition holds. -/
theorem apart_run {I : Rank → Prop} {Q : Nat → Int32 → Rank → Prop}
    (start : Threads.Config Nat Action.Reply Host Int32) (hI : ∀ k, I (start.store.ranks k))
    (hprog : ∀ k, (start.threads k).Always Rank.Does (fun _ _ r => I r) (Q k)
      (start.store.ranks k)) (schedule : List (Nat × Answer)) (k : Nat) :
    I ((Threads.run act start schedule).store.ranks k) ∧
      ∀ rc, (Threads.run act start schedule).threads k = .done rc →
        Q k rc ((Threads.run act start schedule).store.ranks k) := by
  have hkept : (apart I).Kept act (fun _ => True) (fun k rc s => Q k rc (s.ranks k)) start :=
    ⟨hI, fun k => apart_safe (hprog k)⟩
  have hrun := hkept.run schedule fun _ _ => trivial
  exact ⟨hrun.inv k, fun rc hrc => hrun.post hrc⟩

end UniCCL
