import Mathlib.Data.List.Forall2
import OrderDesk.Desk.Reads

/-!
Discretion at the desk. Only the kind of a failure decides what a client does and is told: two desks
that differ in what is known about failures to come stay alike, whatever is done at both.
-/

namespace OrderDesk

inductive OrderError.Alike : OrderError → OrderError → Prop where
  | notFound (s t : String) : Alike (.notFound s) (.notFound t)
  | storage (s t : String) : Alike (.storage s) (.storage t)
  | invalidInput (s t : String) : Alike (.invalidInput s) (.invalidInput t)
  | messaging (s t : String) : Alike (.messaging s) (.messaging t)

namespace OrderError

variable {e f : OrderError}

theorem Alike.refl (e : OrderError) : e.Alike e := by cases e <;> constructor

theorem Alike.isNotFound (h : e.Alike f) : e.isNotFound = f.isNotFound := by cases h <;> rfl

theorem Alike.isTemporary (h : e.Alike f) : e.isTemporary = f.isTemporary := by cases h <;> rfl

end OrderError

inductive AlikeAnswers {α : Type} : Except OrderError α → Except OrderError α → Prop where
  | ok (a : α) : AlikeAnswers (.ok a) (.ok a)
  | error {e f : OrderError} (h : e.Alike f) : AlikeAnswers (.error e) (.error f)

theorem AlikeAnswers.refl {α : Type} (r : Except OrderError α) : AlikeAnswers r r := by
  cases r with
  | ok a => exact .ok a
  | error e => exact .error (.refl e)

-- The second of two alike states is written as the first with other failures, so that a case split
-- makes all else of it the same by definition.
inductive Store.Alike : Store → Store → Prop where
  | intro (s : Store) {queued : List OrderError} {failure : Option OrderError}
      (hqueued : List.Forall₂ OrderError.Alike s.upsertFailures queued)
      (hfailure : Option.Rel OrderError.Alike s.readFailure failure) :
      s.Alike { s with upsertFailures := queued, readFailure := failure }

inductive Desk.Alike : Desk → Desk → Prop where
  | intro (d : Desk) {s : Store} (h : d.store.Alike s) : d.Alike { d with store := s }

/-! ## Stores -/

theorem OrderError.alike_option_refl (e : Option OrderError) : Option.Rel Alike e e := by
  cases e with
  | none => exact .none
  | some e => exact .some (.refl e)

namespace Store

variable {α : Type} {s t : Store}

theorem Alike.refl (s : Store) : s.Alike s :=
  .intro s (List.forall₂_same.2 fun e _ => .refl e) (OrderError.alike_option_refl _)

theorem Alike.failUpserts (h : s.Alike t) {e f : OrderError} (he : e.Alike f) (times : Nat) :
    (s.failUpserts e times).Alike (t.failUpserts f times) := by
  have hnew : List.Forall₂ OrderError.Alike (.replicate times e) (.replicate times f) := by
    induction times with
    | zero => exact .nil
    | succ n ih => exact .cons he ih
  cases h with
  | intro hqueued hfailure => exact .intro _ (List.rel_append hqueued hnew) hfailure

theorem Alike.failReads (h : s.Alike t) {e f : Option OrderError}
    (he : Option.Rel OrderError.Alike e f) : (s.failReads e).Alike (t.failReads f) := by
  cases h with
  | intro hqueued _ => exact .intro _ hqueued he

theorem alike_read (h : Option.Rel OrderError.Alike s.readFailure t.readFailure)
    (answer : Except OrderError α) : AlikeAnswers (s.read answer) (t.read answer) := by
  unfold read
  match s.readFailure, t.readFailure, h with
  | _, _, .none => exact .refl answer
  | _, _, .some h => exact .error h

theorem Alike.order (h : s.Alike t) (uid : String) :
    Prod.RProd AlikeAnswers Alike (s.order uid) (t.order uid) := by
  cases h with
  | intro hqueued hfailure => exact ⟨alike_read hfailure _, .intro _ hqueued hfailure⟩

theorem Alike.items (h : s.Alike t) (uid : String) (last limit : Int64) :
    Prod.RProd AlikeAnswers Alike (s.items uid last limit) (t.items uid last limit) := by
  cases h with
  | intro hqueued hfailure => exact ⟨alike_read hfailure _, .intro _ hqueued hfailure⟩

theorem Alike.all (h : s.Alike t) (limit : Int64) :
    Prod.RProd AlikeAnswers Alike (s.all limit) (t.all limit) := by
  cases h with
  | intro hqueued hfailure => exact ⟨alike_read hfailure _, .intro _ hqueued hfailure⟩

theorem Alike.upsert (h : s.Alike t) (o : Order) :
    Prod.RProd AlikeAnswers Alike (s.upsert o) (t.upsert o) := by
  obtain ⟨shelf, given, failures, failure, calls⟩ := s
  cases h with
  | intro hqueued hfailure =>
    cases hqueued with
    | nil => exact ⟨.ok _, .intro _ .nil hfailure⟩
    | cons h hrest => exact ⟨.error h, .intro _ hrest hfailure⟩

end Store

theorem Desk.Alike.refl (d : Desk) : d.Alike d := .intro d (.refl d.store)

theorem Desk.Alike.store {d e : Desk} (h : d.Alike e) : d.store.Alike e.store := by
  cases h with
  | intro hstore => exact hstore

theorem Desk.Alike.cache_eq {d e : Desk} (h : d.Alike e) : e.cache = d.cache := by cases h; rfl

/-! ## Programs -/

def Step.Agree {α : Type} : Step α → α → α → Prop
  | .cachedOrder _ | .cachedItems .. | .storedOrder _ | .storedItems .. | .storedOrders _
  | .storeOrder _ => AlikeAnswers
  | .cacheOrder _ | .count _ | .note _ => Eq

theorem Desk.alike_withStore {α : Type} {R : α → α → Prop} {x y : α × Store} (d : Desk)
    (h : Prod.RProd R Store.Alike x y) :
    Prod.RProd R Alike (x.1, { d with store := x.2 }) (y.1, { d with store := y.2 }) := by
  cases h with
  | intro hanswer hstore => exact ⟨hanswer, .intro _ hstore⟩

theorem Step.alike_run {α : Type} {d e : Desk} (s : Step α) (h : d.Alike e) :
    Prod.RProd s.Agree Desk.Alike (s.run d) (s.run e) := by
  cases h with
  | intro hstore =>
    cases s with
    | cachedOrder | cachedItems => exact ⟨.refl _, .intro d hstore⟩
    | cacheOrder | count | note => exact ⟨rfl, .intro _ hstore⟩
    | storedOrder uid => exact d.alike_withStore (hstore.order uid)
    | storedItems uid last limit => exact d.alike_withStore (hstore.items uid last limit)
    | storedOrders limit => exact d.alike_withStore (hstore.all limit)
    | storeOrder o => exact d.alike_withStore (hstore.upsert o)

namespace Access

variable {α β : Type} {R : α → α → Prop} {S : β → β → Prop} {p q : Access α}
  {f g : α → Access β} {a b : α}

def Agree (R : α → α → Prop) (p q : Access α) : Prop :=
  ∀ ⦃d e : Desk⦄, d.Alike e → Prod.RProd R Desk.Alike (p.run d) (q.run e)

theorem Agree.pure (h : R a b) : Agree R (Pure.pure a) (Pure.pure b) := fun _ _ hdesk => ⟨h, hdesk⟩

theorem agree_perform (s : Step α) : Agree s.Agree (perform s) (perform s) :=
  fun _ _ => s.alike_run

theorem agree_note (e : Event) : Agree Eq (perform (.note e)) (perform (.note e)) :=
  agree_perform (.note e)

theorem agree_cacheOrder (o : Order) :
    Agree Eq (perform (.cacheOrder o)) (perform (.cacheOrder o)) := agree_perform (.cacheOrder o)

theorem Agree.bind (h : Agree R p q) (hnext : ∀ ⦃a b⦄, R a b → Agree S (f a) (g b)) :
    Agree S (p >>= f) (q >>= g) := by
  intro d e hdesk
  rw [run_bind, run_bind]
  match p.run d, q.run e, h hdesk with
  | _, _, .intro hanswer hdesk => exact hnext hanswer hdesk

end Access

namespace Desk

open Access (Agree agree_cacheOrder agree_note agree_perform)

theorem agree_noteFailure (text : String) {e f : OrderError} (h : e.Alike f) :
    Agree Eq (noteFailure text e) (noteFailure text f) := by
  rw [noteFailure, noteFailure, h.isNotFound]
  exact agree_note _

theorem agree_readOrder (uid : String) : Agree AlikeAnswers (readOrder uid) (readOrder uid) := by
  refine (agree_perform _).bind fun _ _ _ => (agree_perform _).bind fun _ _ hcached => ?_
  cases hcached with
  | ok o => exact (agree_perform _).bind fun _ _ _ => .pure (.ok o)
  | error =>
    refine (agree_perform _).bind fun _ _ _ => (agree_perform _).bind fun _ _ hstored => ?_
    cases hstored with
    | ok o => exact (agree_perform _).bind fun _ _ _ => .pure (.ok o)
    | error h => exact (agree_noteFailure _ h).bind fun _ _ _ => .pure (.error h)

theorem agree_headerForPage (uid : String) :
    Agree AlikeAnswers (headerForPage uid) (headerForPage uid) := by
  refine (agree_perform _).bind fun _ _ hcached => ?_
  cases hcached with
  | ok o => exact .pure (.ok o)
  | error => exact agree_perform (.storedOrder uid)

theorem agree_cachePage (uid : String) (page : List Item) :
    Agree Eq (cachePage uid page) (cachePage uid page) := by
  refine (agree_headerForPage uid).bind fun _ _ hheader => ?_
  cases hheader with
  | ok o => exact agree_cacheOrder _
  | error => exact agree_note _

theorem agree_fetchItems (uid : String) (last limit : Int64) :
    Agree AlikeAnswers (fetchItems uid last limit) (fetchItems uid last limit) := by
  refine (agree_perform _).bind fun _ _ _ => (agree_perform _).bind fun _ _ hstored => ?_
  cases hstored with
  | ok page => exact (agree_cachePage uid page).bind fun _ _ _ => .pure (.ok page)
  | error h => exact (agree_noteFailure _ h).bind fun _ _ _ => .pure (.error h)

theorem agree_readItems (uid : String) (last limit : Int64) :
    Agree AlikeAnswers (readItems uid last limit) (readItems uid last limit) := by
  refine (agree_perform _).bind fun _ _ _ => (agree_perform _).bind fun _ _ hcached => ?_
  cases hcached with
  | ok page =>
    cases page with
    | nil => exact agree_fetchItems uid last limit
    | cons x xs => exact (agree_perform _).bind fun _ _ _ => .pure (.ok (x :: xs))
  | error => exact agree_fetchItems uid last limit

theorem agree_persist (o : Order) : Agree AlikeAnswers (persist o) (persist o) := by
  refine (agree_perform _).bind fun _ _ hstored => ?_
  cases hstored with
  | ok stored =>
    exact (agree_perform _).bind fun _ _ _ => (agree_perform _).bind fun _ _ _ => .pure (.ok ())
  | error h => exact .pure (.error h)

theorem agree_cacheAll (os : List Order) : Agree Eq (cacheAll os) (cacheAll os) := by
  induction os with
  | nil => exact .pure rfl
  | cons o os ih => exact (agree_perform _).bind fun _ _ _ => ih

theorem agree_warmUp (limit : Int64) : Agree AlikeAnswers (warmUp limit) (warmUp limit) := by
  refine (agree_perform _).bind fun _ _ hstored => ?_
  cases hstored with
  | ok os => exact (agree_cacheAll os).bind fun _ _ _ => .pure (.ok os.length)
  | error h => exact .pure (.error h)

end Desk

end OrderDesk
