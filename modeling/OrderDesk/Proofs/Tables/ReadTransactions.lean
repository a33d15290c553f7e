import OrderDesk.Proofs.Tables.Loads

/-!
Transactions in which orders are read. The server is told that nothing is to be written before anything
is selected, and the end is a commit if every reply was usable and a rollback otherwise.
-/

namespace OrderDesk.Tables

variable {α : Type}

/-! ## Exchanges -/

inductive Closes : Except OrderError α → Except OrderError α → List Exchange → Prop where
  | committed {a c} (hc : c.Accepted) : Closes (.ok a) (.ok a) [⟨.commit, c⟩]
  | uncommitted {a c q e} (hc : ¬ c.Accepted) :
      Closes (.ok a) (.error e) [⟨.commit, c⟩, ⟨.rollback, q⟩]
  | rolledBack {e q} (hq : q.Accepted) : Closes (.error e) (.error e) [⟨.rollback, q⟩]
  | abandoned {e f q u} (hq : ¬ q.Accepted) :
      Closes (.error e) (.error f) [⟨.rollback, q⟩, ⟨.rollback, u⟩]

inductive ReadTransacted (P : Except OrderError α → List Exchange → Prop) :
    Except OrderError α → List Exchange → Prop where
  | unbegun {b e} (hb : ¬ b.Accepted) : ReadTransacted P (.error e) [⟨.begin, b⟩]
  | unguarded {b p q e} (hb : b.Accepted) (hp : ¬ p.Accepted) :
      ReadTransacted P (.error e) [⟨.begin, b⟩, ⟨.readOnly, p⟩, ⟨.rollback, q⟩]
  | closed {b p a r xs ys} (hb : b.Accepted) (hp : p.Accepted) (h : P a xs) (hc : Closes a r ys) :
      ReadTransacted P r (⟨.begin, b⟩ :: ⟨.readOnly, p⟩ :: (xs ++ ys))

theorem Work.conducts_readTransaction {P : Except OrderError α → List Exchange → Prop}
    {work : Work α} (h : work.run.Conducts P) :
    (transaction true work).run.Conducts (ReadTransacted P) := by
  refine conducts_bind (conducts_bind (conducts_send (fun b n hb => ?_) fun b f hb => ?_))
  · have hbegun : b.Accepted := ⟨n, hb⟩
    refine conducts_reply .readOnly fun p => ?_
    cases hp : p.count with
    | error f => exact conducts_giveUp fun q => .unguarded hbegun (not_accepted hp)
    | ok m =>
      refine conducts_pure (conducts_bind (conducts_lift (h.mono fun a xs ha => ?_)))
      have hclosed {r : Except OrderError α} {ys : List Exchange} (hc : Closes a r ys) :
          ReadTransacted P r (⟨.begin, b⟩ :: ⟨.readOnly, p⟩ :: (xs ++ ys)) :=
        .closed hbegun ⟨m, hp⟩ ha hc
      cases a with
      | ok a =>
        exact conducts_finish_ok (fun c hc => hclosed (.committed hc)) fun c q t hc =>
          hclosed (.uncommitted hc)
      | error e =>
        exact conducts_finish_error (fun q hq => hclosed (.rolledBack hq)) fun q u t hq =>
          hclosed (.abandoned hq)
  · exact .unbegun (not_accepted hb)

/-! ## Reads -/

def Statement.ends : Statement → Bool
  | .commit | .rollback => true
  | _ => false

/-- A read, as one transaction that is kept from writing before anything is selected. It is committed
if all replies are usable, and rolled back if they are not. -/
structure Protected (P : Except OrderError α → List Exchange → Prop) (r : Except OrderError α)
    (xs : List Exchange) : Prop where
  transacted : ReadTransacted P r xs
  guarded : ∀ ys x zs, xs = ys ++ x :: zs → x.statement.isSelect = true →
    ∃ b p us, b.Accepted ∧ p.Accepted ∧ ys = ⟨.begin, b⟩ :: ⟨.readOnly, p⟩ :: us
  quiet : ∀ x ∈ xs, x.statement.writes = false
  commits : (∃ x ∈ xs, x.statement = .commit) ↔
    ∀ x ∈ xs, x.statement.ends = false → x.Usable
  /-- A transaction that never began is not rolled back. -/
  rollsBack : ∀ b ys, xs = ⟨.begin, b⟩ :: ys → b.Accepted → (∀ x ∈ xs, x.statement ≠ .commit) →
    ∃ zs q, ys = zs ++ [⟨.rollback, q⟩]
  /-- A name that is not known is a fault of the storage, if nothing else is wrong. -/
  misnamed : (∀ x ∈ xs, x.Readable) → (∃ x ∈ xs, x.Misnamed) → ∃ t, r = .error (.storage t)

namespace Closes

variable {a r : Except OrderError α} {xs : List Exchange}

theorem ends (h : Closes a r xs) : ∀ x ∈ xs, x.statement = .commit ∨ x.statement = .rollback := by
  cases h <;> simp

theorem commits_iff (h : Closes a r xs) : (∃ x ∈ xs, x.statement = .commit) ↔ ∃ b, a = .ok b := by
  cases h <;> simp

theorem rollsBack {e : OrderError} (h : Closes (.error e) r xs) :
    ∃ ys q, xs = ys ++ [⟨.rollback, q⟩] := by
  cases h with
  | rolledBack => exact ⟨[], _, rfl⟩
  | abandoned => exact ⟨[_], _, rfl⟩

theorem eq_of_readable {e : OrderError} (h : Closes (.error e) r xs) (hx : ∀ x ∈ xs, x.Readable) :
    r = .error e := by
  cases h with
  | rolledBack => rfl
  | abandoned hq => exact absurd (hx _ List.mem_cons_self) hq

end Closes

/-! ### Frames -/

namespace Exchange

variable {x : Exchange}

theorem readable_iff_of_frame (h : x.statement.isFrame = true) : x.Readable ↔ x.reply.Accepted := by
  obtain ⟨s, q⟩ := x
  cases s with
  | begin | readOnly | commit | rollback => exact Iff.rfl
  | _ => cases h

theorem not_misnamed_of_frame (h : x.statement.isFrame = true) : ¬ x.Misnamed := by
  obtain ⟨s, q⟩ := x
  cases s with
  | begin | readOnly | commit | rollback => exact not_false
  | _ => cases h

theorem isFrame_of_ends (h : x.statement = .commit ∨ x.statement = .rollback) :
    x.statement.isFrame = true ∧ x.statement.ends = true := by
  rcases h with h | h <;> rw [h] <;> exact ⟨rfl, rfl⟩

end Exchange

theorem Statement.not_writes_of_isFrame {s : Statement} (h : s.isFrame = true) : s.writes = false := by
  cases s <;> first | rfl | cases h

theorem Statement.of_isSelect {s : Statement} (h : s.isSelect = true) :
    s.isFrame = false ∧ s.writes = false ∧ s.ends = false ∧ s ≠ .commit := by
  cases s with
  | select => exact ⟨rfl, rfl, rfl, nofun⟩
  | _ => cases h

namespace ReadTransacted

variable {P : Except OrderError α → List Exchange → Prop} {r : Except OrderError α}
  {xs : List Exchange}

theorem protects_of_frames (h : ReadTransacted P r xs)
    (hx : ∀ x ∈ xs, x.statement.isFrame = true) (hcommit : ∀ x ∈ xs, x.statement ≠ .commit)
    (hopen : ∃ x ∈ xs, x.statement.ends = false ∧ ¬ x.reply.Accepted)
    (hrolled : ∀ b ys, xs = ⟨.begin, b⟩ :: ys → b.Accepted → ∃ zs q, ys = zs ++ [⟨.rollback, q⟩]) :
    Protected P r xs := by
  constructor
  case transacted => exact h
  case guarded =>
    rintro ys x zs rfl hselect
    have hframe := hx x (by simp)
    rw [(Statement.of_isSelect hselect).1] at hframe
    cases hframe
  case quiet => exact fun x hxs => Statement.not_writes_of_isFrame (hx x hxs)
  case commits =>
    obtain ⟨x, hxs, hends, hrefused⟩ := hopen
    refine iff_of_false (fun ⟨y, hy, he⟩ => hcommit y hy he) fun hall => hrefused ?_
    exact (Exchange.readable_iff_of_frame (hx x hxs)).1 (hall x hxs hends).1
  case rollsBack => exact fun b ys hxs hb _ => hrolled b ys hxs hb
  case misnamed =>
    rintro - ⟨x, hxs, hmisnamed⟩
    exact absurd hmisnamed (Exchange.not_misnamed_of_frame (hx x hxs))

section Closed

variable {b p : Reply} {a : Except OrderError α} {ys zs : List Exchange}

theorem forall_mem_opened {Q : Exchange → Prop} :
    (∀ x ∈ ⟨.begin, b⟩ :: ⟨.readOnly, p⟩ :: (ys ++ zs), Q x) ↔
      Q ⟨.begin, b⟩ ∧ Q ⟨.readOnly, p⟩ ∧ (∀ x ∈ ys, Q x) ∧ ∀ x ∈ zs, Q x := by
  simp only [List.forall_mem_cons, List.forall_mem_append]

theorem guarded_opened {us ws : List Exchange} {x : Exchange}
    (h : ⟨.begin, b⟩ :: ⟨.readOnly, p⟩ :: xs = us ++ x :: ws)
    (hselect : x.statement.isSelect = true) :
    ∃ vs, us = ⟨.begin, b⟩ :: ⟨.readOnly, p⟩ :: vs := by
  cases us with
  | nil =>
    cases h
    cases hselect
  | cons u us =>
    cases us with
    | nil =>
      cases h
      cases hselect
    | cons v us =>
      simp only [List.cons_append, List.cons.injEq] at h
      obtain ⟨rfl, rfl, -⟩ := h
      exact ⟨us, rfl⟩

theorem commits_opened (hys : ∀ x ∈ ys, x.statement.isSelect = true) (hc : Closes a r zs) :
    (∃ x ∈ ⟨.begin, b⟩ :: ⟨.readOnly, p⟩ :: (ys ++ zs), x.statement = .commit) ↔
      ∃ v, a = .ok v := by
  rw [← hc.commits_iff]
  constructor
  · rintro ⟨x, hx, hcommit⟩
    simp only [List.mem_cons, List.mem_append] at hx
    rcases hx with rfl | rfl | hx | hx
    · cases hcommit
    · cases hcommit
    · exact absurd hcommit (Statement.of_isSelect (hys x hx)).2.2.2
    · exact ⟨x, hx, hcommit⟩
  · rintro ⟨x, hx, hcommit⟩
    have hmem : x ∈ ys ++ zs := List.mem_append_right ys hx
    exact ⟨x, List.mem_cons_of_mem _ (List.mem_cons_of_mem _ hmem), hcommit⟩

theorem protects_closed (h : ReadTransacted P r (⟨.begin, b⟩ :: ⟨.readOnly, p⟩ :: (ys ++ zs)))
    (hb : b.Accepted) (hp : p.Accepted) (hys : Selects True a ys) (hc : Closes a r zs) :
    Protected P r (⟨.begin, b⟩ :: ⟨.readOnly, p⟩ :: (ys ++ zs)) := by
  obtain ⟨hselects, husable, hstorage⟩ := hys
  -- what closes the transaction selects nothing, so no name can be wrong in its replies
  have hframe : ∀ z ∈ zs, z.statement.isFrame = true ∧ z.statement.ends = true :=
    fun z hz => Exchange.isFrame_of_ends (hc.ends z hz)
  constructor
  case transacted => exact h
  case guarded =>
    intro us x ws hxs hselect
    obtain ⟨vs, rfl⟩ := guarded_opened hxs hselect
    exact ⟨b, p, vs, hb, hp, rfl⟩
  case quiet =>
    exact forall_mem_opened.2 ⟨rfl, rfl,
      fun x hx => (Statement.of_isSelect (hselects x hx)).2.1,
      fun x hx => Statement.not_writes_of_isFrame (hframe x hx).1⟩
  case commits =>
    rw [commits_opened hselects hc, husable, true_and, forall_mem_opened]
    constructor
    · intro hread
      refine ⟨fun _ => ⟨hb, not_false⟩, fun _ => ⟨hp, not_false⟩, fun x hx _ => hread x hx, ?_⟩
      intro x hx hends
      cases hends.symm.trans (hframe x hx).2
    · exact fun hall x hx => hall.2.2.1 x hx (Statement.of_isSelect (hselects x hx)).2.2.1
  case rollsBack =>
    rintro c us hxs - hnone
    obtain rfl := (List.cons.inj hxs).2
    cases a with
    | ok v =>
      obtain ⟨x, hx, hcommit⟩ := (commits_opened hselects hc).2 ⟨v, rfl⟩
      exact absurd hcommit (hnone x hx)
    | error e =>
      obtain ⟨ws, q, rfl⟩ := hc.rollsBack
      exact ⟨⟨.readOnly, p⟩ :: (ys ++ ws), q, by simp⟩
  case misnamed =>
    rintro hread ⟨x, hx, hmisnamed⟩
    obtain ⟨-, -, hysread, hzsread⟩ := forall_mem_opened.1 hread
    cases a with
    | ok v =>
      refine absurd hmisnamed (forall_mem_opened.2 ⟨not_false, not_false, fun y hy => ?_,
        fun y hy => Exchange.not_misnamed_of_frame (hframe y hy).1⟩ x hx)
      exact ((husable.1 ⟨v, rfl⟩).2 y hy).2
    | error e =>
      obtain ⟨t, rfl⟩ := hstorage e rfl hysread
      exact ⟨t, hc.eq_of_readable hzsread⟩

end Closed

theorem protects (hP : ∀ r xs, P r xs → Selects True r xs) (h : ReadTransacted P r xs) :
    Protected P r xs := by
  have htransacted := h
  cases h with
  | @unbegun b e hb =>
    refine htransacted.protects_of_frames (by simp [Statement.isFrame]) (by simp) ?_ ?_
    · exact ⟨_, List.mem_cons_self, rfl, hb⟩
    · rintro c ys hxs hc
      cases hxs
      exact absurd hc hb
  | @unguarded b p q e hb hp =>
    refine htransacted.protects_of_frames (by simp [Statement.isFrame]) (by simp) ?_ ?_
    · exact ⟨_, List.mem_cons_of_mem _ List.mem_cons_self, rfl, hp⟩
    · rintro c ys hxs -
      cases hxs
      exact ⟨[_], q, rfl⟩
  | closed hb hp hwork hc => exact htransacted.protects_closed hb hp (hP _ _ hwork) hc

end ReadTransacted

/-- Whatever a server replies, an order, the first orders and a page of items are read in transactions
that only read; the orders are collected one by one, each from the rows of its own parts. -/
theorem reads_protected (uid : String) (last limit : Int64) :
    (order uid).run.Conducts (Protected (OrderRead uid)) ∧
      (orders limit).run.Conducts (Protected (OrdersRead limit)) ∧
      (items uid last limit).run.Conducts (Protected (ItemsRead uid last limit)) := by
  refine ⟨?_, ?_, ?_⟩
  · refine (Work.conducts_readTransaction (Work.conducts_loadOrder uid)).mono fun r xs h => ?_
    exact h.protects fun _ _ => selects_orderRead
  · refine (Work.conducts_readTransaction (Work.conducts_loadOrders limit)).mono fun r xs h => ?_
    exact h.protects fun _ _ => selects_ordersRead
  · refine (Work.conducts_readTransaction (Work.conducts_loadItems uid last limit)).mono
      fun r xs h => ?_
    exact h.protects fun _ _ => selects_itemsRead

end OrderDesk.Tables
