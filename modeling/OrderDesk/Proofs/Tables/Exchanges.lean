import OrderDesk.Tables.Session

/-!
Exchanges of a session: the statements it sends, each with the server's reply. What a session sends
and what comes of it are said of its exchanges, whatever the server replies.
-/

namespace OrderDesk.Tables

structure Exchange where
  statement : Statement
  reply : Reply
deriving DecidableEq

def Answered {σ : Type} (server : Server σ) : σ → List Exchange → σ → Prop
  | v, [], w => v = w
  | v, x :: xs, w => x.reply = (server x.statement v).1 ∧ Answered server (server x.statement v).2 xs w

theorem Answered.append {σ : Type} {server : Server σ} {xs ys : List Exchange} {u v w : σ}
    (h : Answered server u xs v) (hs : Answered server v ys w) : Answered server u (xs ++ ys) w := by
  induction xs generalizing u with
  | nil => exact h ▸ hs
  | cons x xs ih => exact ⟨h.1, ih h.2⟩

def Session.Conducts {α : Type} (p : Session α) (P : α → List Exchange → Prop) : Prop :=
  ∀ (σ : Type) (server : Server σ) (w : σ), ∃ xs,
    Answered server w xs (p.run server w).2.2 ∧
      (p.run server w).2.1.sent = xs.map Exchange.statement ∧ P (p.run server w).1 xs

namespace Session

variable {α β : Type} {P : α → List Exchange → Prop}

theorem conducts_done {a : α} (h : P a []) : (done a).Conducts P :=
  fun _ _ _ => ⟨[], rfl, rfl, h⟩

theorem conducts_perform {P : Reply → List Exchange → Prop} (s : Statement)
    (h : ∀ r, P r [⟨s, r⟩]) : (perform s).Conducts P :=
  fun _ server w => ⟨[⟨s, (server s w).1⟩], ⟨rfl, rfl⟩, rfl, h _⟩

theorem conducts_note {P : Unit → List Exchange → Prop} (e : Event) (h : P () []) :
    (note e (.done ())).Conducts P :=
  fun _ _ _ => ⟨[], rfl, rfl, h⟩

theorem conducts_count {P : Unit → List Exchange → Prop} (c : Counter) (h : P () []) :
    (count c (.done ())).Conducts P :=
  fun _ _ _ => ⟨[], rfl, rfl, h⟩

theorem Conducts.mono {p : Session α} {Q : α → List Exchange → Prop} (h : p.Conducts P)
    (hPQ : ∀ a xs, P a xs → Q a xs) : p.Conducts Q := by
  intro σ server w
  obtain ⟨xs, hw, hs, hp⟩ := h σ server w
  exact ⟨xs, hw, hs, hPQ _ _ hp⟩

theorem run_bind {σ : Type} (p : Session α) (f : α → Session β) (server : Server σ) (w : σ) :
    ((p >>= f).run server w).1 = ((f (p.run server w).1).run server (p.run server w).2.2).1 ∧
      ((p >>= f).run server w).2.1.sent = (p.run server w).2.1.sent ++
        ((f (p.run server w).1).run server (p.run server w).2.2).2.1.sent ∧
      ((p >>= f).run server w).2.2 =
        ((f (p.run server w).1).run server (p.run server w).2.2).2.2 := by
  change ((p.bind f).run server w).1 = _ ∧ ((p.bind f).run server w).2.1.sent = _ ∧
    ((p.bind f).run server w).2.2 = _
  induction p generalizing w with
  | done a => exact ⟨rfl, rfl, rfl⟩
  | send s next ih =>
    obtain ⟨ha, ht, hw⟩ := ih (server s w).1 (server s w).2
    exact ⟨ha, congrArg (s :: ·) ht, hw⟩
  | count c next ih => exact ih w
  | note e next ih => exact ih w

theorem Conducts.bind {p : Session α} {f : α → Session β} {Q : β → List Exchange → Prop}
    (h : p.Conducts P) (hf : ∀ a xs, P a xs → (f a).Conducts fun b ys => Q b (xs ++ ys)) :
    (p >>= f).Conducts Q := by
  intro σ server w
  obtain ⟨ha, ht, hw⟩ := run_bind p f server w
  obtain ⟨xs, hxw, hxs, hp⟩ := h σ server w
  obtain ⟨ys, hyw, hys, hq⟩ := hf _ xs hp σ server (p.run server w).2.2
  refine ⟨xs ++ ys, hw ▸ hxw.append hyw, ?_, ha ▸ hq⟩
  rw [ht, hxs, hys, List.map_append]

end Session

end OrderDesk.Tables
