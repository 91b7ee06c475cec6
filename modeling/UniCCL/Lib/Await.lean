import UniCCL.Lib.Threads

/-! # Threads that wait for one of them

One thread brings about a condition `J` that the others need, by its `n`-th action at
the latest. A waiting thread is in time as long as it has not performed a certain number
of actions of its own. When every thread stays within its number until the first has
used up its own, all of them are safe from then on.
-/

namespace Threads.Contract

variable {κ ι : Type} {ρ : ι → Type} {ε σ α β : Type}

/-- A condition that no thread makes false. -/
structure Lasting (C : Contract κ σ) (J : σ → Prop) : Prop where
  rely : ∀ k s t, C.rely k s t → J s → J t
  guarantee : ∀ k s t, C.guarantee k s t → J s → J t

variable (C : Contract κ σ) (sem : Semantics κ ρ ε σ) (ok : ε → Prop) (J : σ → Prop)

/-- Thread `k` is in time for `n` more actions: if `J` holds by then, the rest of it is
safe, and it does not end before without what it needs. -/
def InTime (k : κ) (Q : α → σ → Prop) : Nat → Program ρ α → σ → Prop
  | 0, p, s => ∀ t, C.inv t → C.rely k s t → J t → C.Safe sem ok k Q p t
  | _ + 1, .done a, s => C.Safe sem ok k Q (.done a) s
  | n + 1, .act i next, s => ∀ t, C.inv t → C.rely k s t →
      (J t → C.Safe sem ok k Q (.act i next) t) ∧ ∀ e, ok e →
        C.inv (sem k i e t).1 ∧ C.guarantee k t (sem k i e t).1 ∧
          InTime k Q n (next (sem k i e t).2) (sem k i e t).1

/-- After `n` more actions of thread `k`, or when it is done, `J` holds and the rest of
it is safe. -/
def Attains (k : κ) (Q : α → σ → Prop) : Nat → Program ρ α → σ → Prop
  | 0, p, s => ∀ t, C.inv t → C.rely k s t → J t ∧ C.Safe sem ok k Q p t
  | _ + 1, .done a, s => ∀ t, C.inv t → C.rely k s t → J t ∧ C.Safe sem ok k Q (.done a) t
  | n + 1, .act i next, s => ∀ t, C.inv t → C.rely k s t → ∀ e, ok e →
      C.inv (sem k i e t).1 ∧ C.guarantee k t (sem k i e t).1 ∧
        Attains k Q n (next (sem k i e t).2) (sem k i e t).1

variable {C sem ok J} {k : κ} {Q : α → σ → Prop} {p : Program ρ α} {s t : σ} {n : Nat}

/-! ## One thread -/

/-- What lasts holds at the end of a safe thread. -/
theorem Safe.lasting (hJ : C.Lasting J) (hs : J s) (h : C.Safe sem ok k Q p s) :
    C.Safe sem ok k (fun a t => Q a t ∧ J t) p s := by
  induction p generalizing s with
  | done a => exact fun t ht hst => ⟨h t ht hst, hJ.rely k s t hst hs⟩
  | act i next ih =>
      intro t ht hst e he
      obtain ⟨hinv, hg, hnext⟩ := h t ht hst e he
      exact ⟨hinv, hg, ih _ (hJ.guarantee k t _ hg (hJ.rely k s t hst hs)) hnext⟩

theorem InTime.safe (h : C.InTime sem ok J k Q n p s) (hs : C.inv s) (hJ : J s) :
    C.Safe sem ok k Q p s := by
  cases n with
  | zero => exact h s hs (C.rely_refl k s) hJ
  | succ n =>
      cases p with
      | done a => exact h
      | act i next => exact (h s hs (C.rely_refl k s)).1 hJ

theorem InTime.stable (h : C.InTime sem ok J k Q n p s) (hst : C.rely k s t) :
    C.InTime sem ok J k Q n p t := by
  cases n with
  | zero => exact fun u hu htu => h u hu (C.rely_trans k s t u hst htu)
  | succ n =>
      cases p with
      | done a => exact Safe.stable h hst
      | act i next => exact fun u hu htu => h u hu (C.rely_trans k s t u hst htu)

/-- A thread that is safe anyway is in time for ever. -/
theorem InTime.of_safe (h : C.Safe sem ok k Q p s) : C.InTime sem ok J k Q n p s := by
  induction n generalizing p s with
  | zero => exact fun t _ hst _ => h.stable hst
  | succ n ih =>
      cases p with
      | done a => exact h
      | act i next =>
          intro t ht hst
          refine ⟨fun _ => h.stable hst, fun e he => ?_⟩
          obtain ⟨hinv, hg, hnext⟩ := h t ht hst e he
          exact ⟨hinv, hg, ih hnext⟩

/-- One action, after which the thread is in time for one action less. -/
theorem InTime.act {i : ι} {next : ρ i → Program ρ α} (hJ : C.Lasting J)
    (h : ∀ t, C.inv t → C.rely k s t → ∀ e, ok e →
      C.inv (sem k i e t).1 ∧ C.guarantee k t (sem k i e t).1 ∧
        C.InTime sem ok J k Q (n - 1) (next (sem k i e t).2) (sem k i e t).1) :
    C.InTime sem ok J k Q n (.act i next) s := by
  have hsafe (t : σ) (hst : C.rely k s t) (hJt : J t) : C.Safe sem ok k Q (.act i next) t := by
    intro u hu htu e he
    obtain ⟨hinv, hg, hnext⟩ := h u hu (C.rely_trans k s t u hst htu) e he
    exact ⟨hinv, hg, hnext.safe hinv (hJ.guarantee k u _ hg (hJ.rely k t u htu hJt))⟩
  cases n with
  | zero => exact fun t _ hst hJt => hsafe t hst hJt
  | succ n => exact fun t ht hst => ⟨hsafe t hst, fun e he => h t ht hst e he⟩

/-- Sequencing: the first part is safe, and the second in time wherever it starts. -/
theorem InTime.bind {R : β → σ → Prop} {f : α → Program ρ β} (hJ : C.Lasting J)
    (h : C.Safe sem ok k Q p s) (hs : C.inv s)
    (hf : ∀ a t, C.inv t → Q a t → ∀ m ≤ n, C.InTime sem ok J k R m (f a) t) :
    C.InTime sem ok J k R n (p >>= f) s := by
  have hsafe {p : Program ρ α} {t : σ} (ht : C.inv t) (hJt : J t) (h : C.Safe sem ok k Q p t) :
      C.Safe sem ok k R (p >>= f) t :=
    (h.lasting hJ hJt).bind ht fun a u hu hQ => (hf a u hu hQ.1 0 (Nat.zero_le n)).safe hu hQ.2
  induction p generalizing s n with
  | done a => exact hf a s hs (h.done hs) n (Nat.le_refl n)
  | act i next ih =>
      cases n with
      | zero => exact fun t ht hst hJt => hsafe ht hJt (h.stable hst)
      | succ n =>
          intro t ht hst
          refine ⟨fun hJt => hsafe ht hJt (h.stable hst), fun e he => ?_⟩
          obtain ⟨hinv, hg, hnext⟩ := h t ht hst e he
          exact ⟨hinv, hg, ih _ hnext hinv (fun a u hu hQ m hm => hf a u hu hQ m (by omega))⟩

/-- Sequencing: the first part is in time, and the second safe wherever it starts. -/
theorem InTime.first {R : β → σ → Prop} {f : α → Program ρ β}
    (h : C.InTime sem ok J k Q n p s) (hs : C.inv s)
    (hf : ∀ a t, C.inv t → Q a t → C.Safe sem ok k R (f a) t) :
    C.InTime sem ok J k R n (p >>= f) s := by
  induction n generalizing p s with
  | zero => exact fun t ht hst hJ => (h t ht hst hJ).bind ht hf
  | succ n ih =>
      cases p with
      | done a => exact .of_safe (hf a s hs (Safe.done h hs))
      | act i next =>
          intro t ht hst
          obtain ⟨hsafe, hstep⟩ := h t ht hst
          refine ⟨fun hJ => (hsafe hJ).bind ht hf, fun e he => ?_⟩
          obtain ⟨hinv, hg, hnext⟩ := hstep e he
          exact ⟨hinv, hg, ih hnext hinv⟩

theorem Attains.stable (h : C.Attains sem ok J k Q n p s) (hst : C.rely k s t) :
    C.Attains sem ok J k Q n p t := by
  cases n with
  | zero => exact fun u hu htu => h u hu (C.rely_trans k s t u hst htu)
  | succ n =>
      cases p with
      | done a => exact fun u hu htu => h u hu (C.rely_trans k s t u hst htu)
      | act i next => exact fun u hu htu => h u hu (C.rely_trans k s t u hst htu)

/-- A thread that has attained `J` may go on for any number of actions. -/
theorem Attains.of_safe (hJ : C.Lasting J) (hs : J s) (h : C.Safe sem ok k Q p s) :
    C.Attains sem ok J k Q n p s := by
  induction n generalizing p s with
  | zero => exact fun t _ hst => ⟨hJ.rely k s t hst hs, h.stable hst⟩
  | succ n ih =>
      cases p with
      | done a => exact fun t _ hst => ⟨hJ.rely k s t hst hs, h.stable hst⟩
      | act i next =>
          intro t ht hst e he
          obtain ⟨hinv, hg, hnext⟩ := h t ht hst e he
          exact ⟨hinv, hg, ih (hJ.guarantee k t _ hg (hJ.rely k s t hst hs)) hnext⟩

theorem Attains.mono {m : Nat} (hJ : C.Lasting J) (h : C.Attains sem ok J k Q n p s) (hs : C.inv s) :
    C.Attains sem ok J k Q (n + m) p s := by
  induction n generalizing p s with
  | zero =>
      obtain ⟨hJs, hsafe⟩ := h s hs (C.rely_refl k s)
      exact .of_safe hJ hJs hsafe
  | succ n ih =>
      rw [Nat.succ_add]
      cases p with
      | done a => exact h
      | act i next =>
          intro t ht hst e he
          obtain ⟨hinv, hg, hnext⟩ := h t ht hst e he
          exact ⟨hinv, hg, ih hnext hinv⟩

/-- Sequencing, with a bound on the actions of the first part. -/
theorem Attains.bind {R : β → σ → Prop} {f : α → Program ρ β} {m : Nat} (hJ : C.Lasting J)
    (h : C.Safe sem ok k Q p s) (hs : C.inv s) (hm : p.EndsIn m)
    (hf : ∀ a t, C.inv t → Q a t → C.Attains sem ok J k R n (f a) t) :
    C.Attains sem ok J k R (n + m) (p >>= f) s := by
  induction p generalizing s m with
  | done a => exact (hf a s hs (h.done hs)).mono hJ hs
  | act i next ih =>
      cases m with
      | zero => exact hm.elim
      | succ m =>
          intro t ht hst e he
          obtain ⟨hinv, hg, hnext⟩ := h t ht hst e he
          exact ⟨hinv, hg, ih _ hnext hinv (hm _)⟩

/-! ## Weaker ends -/

theorem InTime.conseq {Q' : α → σ → Prop} (h : C.InTime sem ok J k Q n p s)
    (hQ : ∀ a t, C.inv t → Q a t → Q' a t) : C.InTime sem ok J k Q' n p s := by
  induction n generalizing p s with
  | zero => exact fun t ht hst hJ => (h t ht hst hJ).conseq hQ
  | succ n ih =>
      cases p with
      | done a => exact Safe.conseq h hQ
      | act i next =>
          intro t ht hst
          obtain ⟨hsafe, hstep⟩ := h t ht hst
          refine ⟨fun hJ => (hsafe hJ).conseq hQ, fun e he => ?_⟩
          obtain ⟨hinv, hg, hnext⟩ := hstep e he
          exact ⟨hinv, hg, ih hnext⟩

theorem Attains.conseq {Q' : α → σ → Prop} (h : C.Attains sem ok J k Q n p s)
    (hQ : ∀ a t, C.inv t → Q a t → Q' a t) : C.Attains sem ok J k Q' n p s := by
  induction n generalizing p s with
  | zero => exact fun t ht hst => (h t ht hst).imp_right fun hsafe => hsafe.conseq hQ
  | succ n ih =>
      cases p with
      | done a => exact fun t ht hst => (h t ht hst).imp_right fun hsafe => Safe.conseq hsafe hQ
      | act i next =>
          intro t ht hst e he
          obtain ⟨hinv, hg, hnext⟩ := h t ht hst e he
          exact ⟨hinv, hg, ih hnext⟩

/-! ## Interleavings -/

variable {P : κ → α → σ → Prop} {provider : κ} {budget : κ → Nat}

/-- Each thread with the number of actions it has left: the provider attains `J` within
its number, the others are in time within theirs. -/
structure Awaiting (C : Contract κ σ) (sem : Semantics κ ρ ε σ) (ok : ε → Prop) (J : σ → Prop)
    (P : κ → α → σ → Prop) (provider : κ) (budget : κ → Nat) (c : Config κ ρ σ α) : Prop where
  inv : C.inv c.store
  attains : C.Attains sem ok J provider (P provider) (budget provider) (c.threads provider) c.store
  inTime : ∀ k, k ≠ provider → C.InTime sem ok J k (P k) (budget k) (c.threads k) c.store

variable [DecidableEq κ] {c : Config κ ρ σ α}

/-- One action of a thread that waits. -/
theorem InTime.tick (h : C.InTime sem ok J k (P k) (n + 1) (c.threads k) c.store)
    (hinv : C.inv c.store) {e : ε} (he : ok e) :
    let c' := Threads.step sem c k e
    C.inv c'.store ∧ (∀ j, j ≠ k → C.rely j c.store c'.store ∧ c'.threads j = c.threads j) ∧
      C.InTime sem ok J k (P k) n (c'.threads k) c'.store := by
  cases hk : c.threads k with
  | done a =>
      rw [step_of_done sem hk]
      rw [hk] at h
      refine ⟨hinv, fun j _ => ⟨C.rely_refl j _, rfl⟩, ?_⟩
      rw [hk]
      exact .of_safe h
  | act i next =>
      rw [step_of_act sem hk]
      rw [hk] at h
      obtain ⟨hinv', hg, hnext⟩ := (h c.store hinv (C.rely_refl k _)).2 e he
      refine ⟨hinv', fun j hj => ⟨C.rely_of_guarantee k j _ _ hj hinv hinv' hg, ?_⟩, ?_⟩
      · exact Function.update_of_ne hj ..
      · simp only [Function.update_self]
        exact hnext

/-- One action of the thread that is waited for. -/
theorem Attains.tick (h : C.Attains sem ok J k (P k) (n + 1) (c.threads k) c.store)
    (hinv : C.inv c.store) {e : ε} (he : ok e) :
    let c' := Threads.step sem c k e
    C.inv c'.store ∧ (∀ j, j ≠ k → C.rely j c.store c'.store ∧ c'.threads j = c.threads j) ∧
      C.Attains sem ok J k (P k) n (c'.threads k) c'.store := by
  cases hk : c.threads k with
  | done a =>
      rw [step_of_done sem hk]
      rw [hk] at h
      refine ⟨hinv, fun j _ => ⟨C.rely_refl j _, rfl⟩, ?_⟩
      rw [hk]
      cases n <;> exact h
  | act i next =>
      rw [step_of_act sem hk]
      rw [hk] at h
      obtain ⟨hinv', hg, hnext⟩ := h c.store hinv (C.rely_refl k _) e he
      refine ⟨hinv', fun j hj => ⟨C.rely_of_guarantee k j _ _ hj hinv hinv' hg, ?_⟩, ?_⟩
      · exact Function.update_of_ne hj ..
      · simp only [Function.update_self]
        exact hnext

/-- One action of a thread that has some left. -/
theorem Awaiting.step (h : C.Awaiting sem ok J P provider budget c) (hk : 0 < budget k) {e : ε}
    (he : ok e) :
    C.Awaiting sem ok J P provider (Function.update budget k (budget k - 1))
      (Threads.step sem c k e) := by
  obtain ⟨n, hn⟩ : ∃ n, budget k = n + 1 := ⟨budget k - 1, by omega⟩
  rw [hn, Nat.add_sub_cancel]
  by_cases hprovider : k = provider
  · subst hprovider
    have hattains := h.attains
    rw [hn] at hattains
    obtain ⟨hinv, hothers, hnext⟩ := hattains.tick h.inv he
    refine ⟨hinv, ?_, fun j hj => ?_⟩
    · rw [Function.update_self]
      exact hnext
    · rw [Function.update_of_ne hj, (hothers j hj).2]
      exact (h.inTime j hj).stable (hothers j hj).1
  · have hinTime := h.inTime k hprovider
    rw [hn] at hinTime
    obtain ⟨hinv, hothers, hnext⟩ := hinTime.tick h.inv he
    refine ⟨hinv, ?_, fun j hj => ?_⟩
    · rw [Function.update_of_ne (Ne.symm hprovider), (hothers provider (Ne.symm hprovider)).2]
      exact h.attains.stable (hothers provider (Ne.symm hprovider)).1
    · by_cases hjk : j = k
      · subst hjk
        rw [Function.update_self]
        exact hnext
      · rw [Function.update_of_ne hjk, (hothers j hjk).2]
        exact (h.inTime j hj).stable (hothers j hjk).1

/-- A schedule in which every thread stays within its number. -/
theorem Awaiting.run (h : C.Awaiting sem ok J P provider budget c) (schedule : List (κ × ε))
    (hok : ∀ x ∈ schedule, ok x.2) (hcount : ∀ k, (schedule.map Prod.fst).count k ≤ budget k) :
    C.Awaiting sem ok J P provider (fun k => budget k - (schedule.map Prod.fst).count k)
      (Threads.run sem c schedule) := by
  induction schedule generalizing budget c with
  | nil => exact h
  | cons x schedule ih =>
      have hhead := hcount x.1
      rw [List.map_cons, List.count_cons_self] at hhead
      have hnext := h.step (k := x.1) (by omega) (hok x List.mem_cons_self)
      have hleft (k : κ) : (schedule.map Prod.fst).count k ≤
            Function.update budget x.1 (budget x.1 - 1) k ∧
          budget k - ((x :: schedule).map Prod.fst).count k =
            Function.update budget x.1 (budget x.1 - 1) k - (schedule.map Prod.fst).count k := by
        have hk := hcount k
        rw [List.map_cons, List.count_cons] at hk ⊢
        by_cases hx : x.1 = k
        · subst hx
          rw [Function.update_self]
          simp only [beq_self_eq_true, if_true] at hk ⊢
          omega
        · rw [Function.update_of_ne (Ne.symm hx)]
          simp only [beq_eq_false_iff_ne.mpr hx] at hk ⊢
          exact ⟨hk, rfl⟩
      have hrest := ih hnext (fun y hy => hok y (List.mem_cons_of_mem _ hy)) fun k => (hleft k).1
      rw [show (fun k => budget k - ((x :: schedule).map Prod.fst).count k) =
        fun k => Function.update budget x.1 (budget x.1 - 1) k - (schedule.map Prod.fst).count k
        from funext fun k => (hleft k).2]
      rw [show x :: schedule = [x] ++ schedule from rfl, run_append]
      exact hrest

/-- When the provider has used up its number, every thread is safe. -/
theorem Awaiting.kept (h : C.Awaiting sem ok J P provider budget c) (hzero : budget provider = 0) :
    C.Kept sem ok P c := by
  have hattained := h.attains
  rw [hzero] at hattained
  obtain ⟨hJ, hsafe⟩ := hattained c.store h.inv (C.rely_refl provider _)
  refine ⟨h.inv, fun k => ?_⟩
  by_cases hk : k = provider
  · rw [hk]
    exact hsafe
  · exact (h.inTime k hk).safe h.inv hJ

end Threads.Contract
