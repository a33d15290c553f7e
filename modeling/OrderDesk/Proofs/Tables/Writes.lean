import OrderDesk.Proofs.Desk.Numbering
import OrderDesk.Proofs.Tables.Heads

/-!
Writing an order to a server that keeps the tables: which rows that leaves, and when it fails. The
items are inserted anew each time and take the numbers that come next. Sound databases hold whole
orders, and stay sound when an order is written.
-/

namespace OrderDesk.Tables

namespace Engine

variable (g : Engine) {db : Database} {uid context : String}

theorem number_lt_number {m n : Nat} (h : m < n) : g.number m < g.number n := by
  induction h with
  | refl => exact g.ascending m
  | step _ ih => exact ih.trans (g.ascending _)

/-! ## Items -/

def withNumber (given : Nat) (x : Item) : Item := { x with id := .ofNat (g.number given) }

def numbered : Nat → List Item → List Item
  | _, [] => []
  | given, x :: xs => g.withNumber given x :: numbered (given + 1) xs

def TakesItem (uid : String) (given : Nat) (x : Item) : Prop :=
  g.number given < twoTo 63 ∧ g.fits .items (itemRow uid (g.withNumber given x)) = true

def TakesItems (uid : String) : Nat → List Item → Prop
  | _, [] => True
  | given, x :: xs => g.TakesItem uid given x ∧ TakesItems uid (given + 1) xs

def Numbered (db : Database) : Prop :=
  ∀ r ∈ db.rows .items, ∃ k < db.given,
    cellOf Table.items.names r "id" = some (.integer (.ofNat (g.number k)))

theorem ofNat_ne_number {k given : Nat} (h : k < given) (hn : g.number given < twoTo 63) :
    Int64.ofNat (g.number k) ≠ .ofNat (g.number given) :=
  Int64.ne_of_lt (Store.ofNat_lt_ofNat (g.number_lt_number h) hn)

theorem free_itemRow (hnum : g.Numbered db) (hn : g.number db.given < twoTo 63) (x : Item) :
    Table.items.free db.rows (itemRow uid (g.withNumber db.given x)) = true := by
  refine List.all_eq_true.2 fun r hr => decide_eq_true fun heq => ?_
  obtain ⟨k, hk, hcell⟩ := hnum r hr
  have hid : cellOf Table.items.names r "id" =
      some (.integer (.ofNat (g.number db.given))) := List.head_eq_of_cons_eq heq
  rw [hcell] at hid
  exact g.ofNat_ne_number hk hn (by simpa using hid)

theorem numbered_of_rewrites {rows : Holdings} {n : Nat} {v : Database} (hnum : g.Numbered db)
    (h : db.Rewrites uid rows n v) (hn : db.given ≤ n)
    (hrows : ∀ r ∈ rows .items, r ∈ db.rows .items ∨
      ∃ k < n, cellOf Table.items.names r "id" = some (.integer (.ofNat (g.number k)))) :
    g.Numbered v := by
  have hold {r : Row} (hr : r ∈ db.rows .items) :
      ∃ k < n, cellOf Table.items.names r "id" = some (.integer (.ofNat (g.number k))) := by
    obtain ⟨k, hk, hcell⟩ := hnum r hr
    exact ⟨k, hk.trans_le hn, hcell⟩
  intro r hr
  rw [h.given]
  rcases Database.mem_rows_iff.1 hr with ho | ho
  · rw [h.own] at ho
    exact (hrows r ho).elim hold id
  · rw [h.rest] at ho
    exact hold (List.mem_filter.1 ho).1

theorem ends_insertItem (hnum : g.Numbered db) (hown : db.own uid .orders ≠ []) (x : Item) :
    Work.Ends g.server (Work.ask context uid (insertItem uid x) (Reply.first readInteger)) db
      fun
        | .ok id, v => g.TakesItem uid db.given x ∧ id = .ofNat (g.number db.given) ∧
          g.Numbered v ∧ db.Rewrites uid ((db.own uid).set .items
            (db.own uid .items ++ [itemRow uid (g.withNumber db.given x)])) (db.given + 1) v
        | .error e, v => e.isTemporary = true ∧ ¬ g.TakesItem uid db.given x ∧
          v = { db with given := db.given + 1 } := by
  have hof : Table.items.isOf uid (itemRow uid (g.withNumber db.given x)) = true :=
    Table.isOf_itemRow uid _
  have hreferenced : Table.items.referenced db.rows
      (itemRow uid (g.withNumber db.given x)) = true := by
    obtain ⟨r, hr⟩ := List.exists_mem_of_ne_nil _ hown
    exact Table.referenced_of_isOf hof (.inr ⟨r, List.mem_filter.1 hr⟩)
  have hadmits : (decide (g.number db.given < twoTo 63) &&
      g.admits db.rows .items (itemRow uid (g.withNumber db.given x))) = true ↔
      g.TakesItem uid db.given x := by
    rw [Bool.and_eq_true, decide_eq_true_iff]
    refine and_congr_right fun hn => ?_
    rw [admits, g.free_itemRow hnum hn, hreferenced, Bool.and_true, Bool.and_true]
  have hrows : db.Rewrites uid ((db.own uid).set .items
      (db.own uid .items ++ [itemRow uid (g.withNumber db.given x)])) (db.given + 1)
      { db.set .items (db.rows .items ++ [itemRow uid (g.withNumber db.given x)]) with
        given := db.given + 1 } :=
    ⟨Database.own_append hof, Database.rest_append hof, rfl, rfl⟩
  have hnext := g.numbered_of_rewrites hnum hrows (Nat.le_succ _) fun r hr => by
    rw [Holdings.set_self] at hr
    rcases List.mem_append.1 hr with hr | hr
    · exact .inl (List.mem_filter.1 hr).1
    · exact .inr ⟨_, Nat.lt_succ_self _, List.mem_singleton.1 hr ▸ rfl⟩
  by_cases hx : g.TakesItem uid db.given x
  · exact Work.ends_send ((g.server_eq rfl db).trans (if_pos (hadmits.2 hx)))
      ⟨hx, rfl, hnext, hrows⟩
  · exact Work.ends_send ((g.server_eq rfl db).trans (if_neg (hadmits.not.2 hx))) ⟨rfl, hx, rfl⟩

theorem ends_insertItems (hnum : g.Numbered db) (hown : db.own uid .orders ≠ []) (xs : List Item) :
    Work.Ends g.server (insertItems uid xs) db fun
      | .ok ys, v => g.TakesItems uid db.given xs ∧ ys = g.numbered db.given xs ∧
        db.Rewrites uid ((db.own uid).set .items (db.own uid .items ++ ys.map (itemRow uid)))
          (db.given + xs.length) v
      | .error e, v => e.isTemporary = true ∧ ¬ g.TakesItems uid db.given xs ∧
        v.before = db.before ∧ db.given ≤ v.given := by
  induction xs generalizing db with
  | nil =>
    refine Work.ends_pure ⟨trivial, rfl, ?_, rfl, rfl, rfl⟩
    funext t
    by_cases ht : t = .items <;> simp [Holdings.set, ht]
  | cons x xs ih =>
    refine Work.ends_bind ((g.ends_insertItem hnum hown x).mono ?_)
    rintro (e | id) v hv
    · obtain ⟨he, hx, rfl⟩ := hv
      exact ⟨he, fun h => hx h.1, rfl, Nat.le_succ _⟩
    · obtain ⟨hx, rfl, hnext, hv⟩ := hv
      -- the other items start from the rows and the number that this one left
      refine Work.ends_bind ((ih hnext (by rw [hv.own]; exact hown)).mono ?_)
      rintro (e | ys) w hw <;> rw [hv.given] at hw
      · exact ⟨hw.1, fun h => hw.2.1 h.2, hw.2.2.1.trans hv.before, Nat.le_of_succ_le hw.2.2.2⟩
      · obtain ⟨hxs, rfl, hw⟩ := hw
        refine Work.ends_pure ⟨⟨hx, hxs⟩, rfl, ?_⟩
        have hrows := hv.trans hw
        rw [hv.own, Holdings.set_self, Holdings.set_set, List.append_assoc] at hrows
        rw [List.length_cons, Nat.add_comm xs.length 1, ← Nat.add_assoc]
        exact hrows

theorem takesItems_iff (given : Nat) (xs : List Item) :
    g.TakesItems uid given xs ↔ (∀ k < xs.length, g.number (given + k) < twoTo 63) ∧
      ∀ x ∈ g.numbered given xs, g.fits .items (itemRow uid x) = true := by
  induction xs generalizing given with
  | nil => simp [TakesItems, numbered]
  | cons x xs ih =>
    rw [TakesItems, ih, TakesItem, List.length_cons, Nat.forall_lt_succ_left, numbered,
      List.forall_mem_cons]
    simp only [Nat.add_zero, Nat.add_assoc, Nat.add_comm 1]
    exact and_and_and_comm

@[simp] theorem length_numbered (given : Nat) (xs : List Item) :
    (g.numbered given xs).length = xs.length := by
  induction xs generalizing given with
  | nil => rfl
  | cons x xs ih => simp only [numbered, List.length_cons, ih]

theorem exists_id_of_mem_numbered {given : Nat} {x : Item} {xs : List Item}
    (h : x ∈ g.numbered given xs) :
    ∃ k, given ≤ k ∧ k < given + xs.length ∧ x.id = .ofNat (g.number k) := by
  induction xs generalizing given with
  | nil => cases h
  | cons y xs ih =>
    rw [List.length_cons]
    rcases List.mem_cons.1 h with rfl | h
    · exact ⟨given, le_rfl, by omega, rfl⟩
    · obtain ⟨k, hl, hu, he⟩ := ih h
      exact ⟨k, by omega, by omega, he⟩

/-! ## Orders -/

def stored (given : Nat) (o : Order) : Order :=
  { o with
    payment := { o.payment with transaction := o.uid }
    items := g.numbered given o.items }

def storedRows (given : Nat) (o : Order) : Holdings := heldRows (g.keptOrder (g.stored given o))

def Takes (given : Nat) (o : Order) : Prop :=
  g.Fit (g.storedRows given o) ∧ ∀ k < o.items.length, g.number (given + k) < twoTo 63

theorem fit_storedRows_iff {given : Nat} {o : Order} :
    g.Fit (g.storedRows given o) ↔ g.Fit (g.headRows o) ∧
      ∀ x ∈ g.numbered given o.items, g.fits .items (itemRow o.uid x) = true := by
  constructor
  · refine fun h => ⟨fun t row hrow => ?_, fun x hx => h .items _ (List.mem_map_of_mem hx)⟩
    cases t with
    | orders => exact h .orders row hrow
    | deliveries => exact h .deliveries row hrow
    | payments => exact h .payments row hrow
    | items => cases hrow
  · rintro ⟨hhead, hitems⟩ t row hrow
    cases t with
    | orders => exact hhead .orders row hrow
    | deliveries => exact hhead .deliveries row hrow
    | payments => exact hhead .payments row hrow
    | items =>
      obtain ⟨x, hx, rfl⟩ := List.mem_map.1 hrow
      exact hitems x hx

theorem takes_iff {given : Nat} {o : Order} :
    g.Takes given o ↔ g.Fit (g.headRows o) ∧ g.TakesItems o.uid given o.items := by
  rw [Takes, takesItems_iff, fit_storedRows_iff, and_assoc, and_comm (b := ∀ k < _, _)]

/-- What becomes of a database when an order is written: its rows are those of the stored order,
unless the server does not take it. -/
def Writes (o : Order) (db : Database) : Except OrderError (Order × WriteKind) → Database → Prop
  | .ok (a, kind), v => g.Takes db.given o ∧ a = g.stored db.given o ∧
    kind = (if db.own o.uid .orders = [] then .insert else .replace) ∧
    db.Rewrites o.uid (g.storedRows db.given o) (db.given + o.items.length) v
  | .error e, v => e.isTemporary = true ∧ ¬ g.Takes db.given o ∧ v.before = db.before ∧
    db.given ≤ v.given

def Whole (db : Database) (uid : String) : Prop :=
  (db.own uid = fun _ => []) ∨ ∃ o : Order, o.uid = uid ∧ db.own uid = heldRows o

theorem ends_writeItems {o : Order} {p : Work Unit} {kind : WriteKind} (hnum : g.Numbered db)
    (hkind : kind = if db.own o.uid .orders = [] then .insert else .replace)
    (hp : Work.Ends g.server p db (g.PutsHead o db)) :
    Work.Ends g.server (do
      p
      let items ← insertItems o.uid o.items
      pure ({ o with payment := { o.payment with transaction := o.uid }, items }, kind)) db
      (g.Writes o db) := by
  refine Work.ends_bind (hp.mono ?_)
  rintro (e | _) v hv
  · exact ⟨hv.1, fun h => hv.2.1 (g.takes_iff.1 h).1, hv.2.2.1, hv.2.2.2.ge⟩
  · obtain ⟨hfit, hv⟩ := hv
    -- head rows have no items, so no number is used up yet
    have hnext : g.Numbered v := g.numbered_of_rewrites hnum hv le_rfl fun r hr => nomatch hr
    have hown : v.own o.uid .orders ≠ [] := by
      rw [hv.own]
      exact List.cons_ne_nil _ _
    refine Work.ends_bind ((g.ends_insertItems hnext hown o.items).mono ?_)
    rintro (e | ys) w hw
    · rw [hv.given] at hw
      exact ⟨hw.1, fun h => hw.2.1 (g.takes_iff.1 h).2, hw.2.2.1.trans hv.before, hw.2.2.2⟩
    · rw [hv.given] at hw
      obtain ⟨hitems, rfl, hw⟩ := hw
      refine Work.ends_pure ⟨g.takes_iff.2 ⟨hfit, hitems⟩, rfl, hkind, ?_⟩
      have hrows : (v.own o.uid).set .items
          (v.own o.uid .items ++ (g.numbered db.given o.items).map (itemRow o.uid)) =
            g.storedRows db.given o := by
        rw [hv.own]
        funext t
        cases t <;> rfl
      exact hrows ▸ hv.trans hw

theorem server_lockOrder (db : Database) (uid : String) :
    g.server (lockOrder uid) db =
      (.rows ((db.own uid .orders).map fun r => [cellOf Table.orders.names r "order_uid"]), db) :=
  g.server_eq rfl db

theorem ends_writeOrder {o : Order} (hnum : g.Numbered db) (hwhole : Whole db o.uid) :
    Work.Ends g.server (writeOrder o) db (g.Writes o db) := by
  refine Work.ends_bind (Work.ends_send (g.server_lockOrder db o.uid) ?_)
  obtain hnone | ⟨v, huid, hold⟩ := hwhole
  · rw [congrFun hnone .orders]
    exact g.ends_writeItems hnum (if_pos (congrFun hnone .orders)).symm (g.ends_insertRows hnone)
  · rw [congrFun hold .orders]
    refine g.ends_writeItems hnum (if_neg ?_).symm (g.ends_replaceRows huid hold)
    rw [congrFun hold .orders]
    exact List.cons_ne_nil _ _

/-! ## Transactions -/

structure Sound (db : Database) : Prop where
  closed : db.before = none
  whole : ∀ uid, Whole db uid
  numbered : g.Numbered db

/-- A failed write leaves everything as it was, but for the numbers that were given, and is taken for
a fault that may pass. -/
def Commits (o : Order) (db : Database) : Except OrderError (Order × WriteKind) → Database → Prop
  | .ok r, v => g.Writes o db (.ok r) v
  | .error e, v => e.isTemporary = true ∧ ¬ g.Takes db.given o ∧
    v = { db with given := v.given } ∧ db.given ≤ v.given

theorem ends_transaction_writeOrder {o : Order} (h : g.Sound db) :
    Work.Ends g.server (Work.transaction false (writeOrder o)) db (g.Commits o db) := by
  have hnum : g.Numbered { db with before := some db.rows } := h.numbered
  have hwhole : Whole { db with before := some db.rows } o.uid := h.whole o.uid
  refine g.ends_transaction false h.closed ((g.ends_writeOrder hnum hwhole).mono ?_)
  rintro (e | ⟨a, kind⟩) v hv
  · obtain ⟨he, htakes, hbefore, hgiven⟩ := hv
    refine ⟨he, htakes, ?_, hgiven⟩
    rw [hbefore, h.closed]
    rfl
  · obtain ⟨htakes, ha, hkind, hown, hrest, -, hgiven⟩ := hv
    exact ⟨htakes, ha, hkind, hown, hrest, h.closed.symm, hgiven⟩

theorem whole_congr {v : Database} {vid : String} (h : v.own vid = db.own vid)
    (hw : Whole db vid) : Whole v vid := by
  rwa [Whole, h]

theorem Sound.write {o : Order} {r : Except OrderError (Order × WriteKind)} {v : Database}
    (h : g.Sound db) (hv : g.Commits o db r v) : g.Sound v := by
  cases r with
  | error e =>
    obtain ⟨-, -, hsame, hgiven⟩ := hv
    refine ⟨by rw [hsame]; exact h.closed, ?_, fun r hr => ?_⟩
    · rw [hsame]
      exact h.whole
    · rw [hsame] at hr
      obtain ⟨k, hk, hcell⟩ := h.numbered r hr
      exact ⟨k, hk.trans_le hgiven, hcell⟩
  | ok r =>
    obtain ⟨-, -, -, hv⟩ := hv
    refine ⟨hv.before.trans h.closed, fun vid => ?_, ?_⟩
    -- the order is there as it was stored, and any other order as it was before
    · by_cases hvid : vid = o.uid
      · exact .inr ⟨g.keptOrder (g.stored db.given o), hvid.symm, hvid ▸ hv.own⟩
      · refine whole_congr ?_ (h.whole vid)
        funext t
        rw [Database.own_of_rest hvid, Database.own_of_rest hvid, hv.rest]
    · refine g.numbered_of_rewrites h.numbered hv (Nat.le_add_right _ _) fun r hr => .inr ?_
      obtain ⟨x, hx, rfl⟩ := List.mem_map.1 hr
      obtain ⟨k, -, hk, hid⟩ := g.exists_id_of_mem_numbered hx
      exact ⟨k, hk, hid ▸ rfl⟩

theorem sound_empty : g.Sound .empty := ⟨rfl, fun _ => .inl rfl, nofun⟩

/-- What a server answers to some work, and what becomes of its database. Work is not run to see what
it does: that follows from how it ends. -/
@[irreducible] def does {α : Type} (p : Work α) (db : Database) : Except OrderError α × Database :=
  ((p.run.run g.server db).1, (p.run.run g.server db).2.2)

theorem ends_does {α : Type} (p : Work α) (db : Database) :
    Work.Ends g.server p db fun r v => r = (g.does p db).1 ∧ v = (g.does p db).2 := by
  unfold does
  exact ⟨rfl, rfl⟩

theorem of_ends {α : Type} {p : Work α} {Q : Except OrderError α → Database → Prop}
    (h : Work.Ends g.server p db Q) : Q (g.does p db).1 (g.does p db).2 := by
  unfold does
  exact h.result

theorem does_eq {α : Type} {p : Work α} {a : Except OrderError α} {v : Database}
    (h : Work.Ends g.server p db fun r w => r = a ∧ w = v) : g.does p db = (a, v) :=
  Prod.ext (g.of_ends h).1 (g.of_ends h).2

def writes (o : Order) (db : Database) : Except OrderError (Order × WriteKind) × Database :=
  g.does (Work.transaction false (writeOrder o)) db

theorem writes_commits {o : Order} (h : g.Sound db) :
    g.Commits o db (g.writes o db).1 (g.writes o db).2 :=
  g.of_ends (g.ends_transaction_writeOrder h)

theorem writes_of_takes {o : Order} (h : g.Sound db) (ht : g.Takes db.given o) :
    ∃ v, g.writes o db =
        (.ok (g.stored db.given o, if db.own o.uid .orders = [] then .insert else .replace), v) ∧
      db.Rewrites o.uid (g.storedRows db.given o) (db.given + o.items.length) v := by
  have hc := g.writes_commits (o := o) h
  rcases hw : g.writes o db with ⟨e | ⟨a, kind⟩, v⟩ <;> rw [hw] at hc
  · exact absurd ht hc.2.1
  · obtain ⟨-, rfl, rfl, hv⟩ := hc
    exact ⟨v, rfl, hv⟩

theorem does_upsert (o : Order) (db : Database) :
    g.does (upsert o) db = ((g.writes o db).1.map Prod.fst, (g.writes o db).2) := by
  have hwrite : Work.Ends g.server (Work.transaction false (writeOrder o)) db fun r v =>
      r = (g.writes o db).1 ∧ v = (g.writes o db).2 := g.ends_does _ db
  refine g.does_eq (Work.ends_bind (hwrite.mono ?_))
  rintro (e | ⟨a, kind⟩) v ⟨hr, hv⟩ <;> rw [← hr]
  · exact ⟨rfl, hv⟩
  · exact Work.ends_bind (Work.ends_lift (Work.ends_bind (Work.ends_lift
      (Work.ends_pure ⟨rfl, hv⟩))))

/-! ## Histories -/

def after (os : List Order) : Database := os.foldl (fun db o => (g.does (upsert o) db).2) .empty

theorem after_concat (os : List Order) (o : Order) :
    g.after (os ++ [o]) = (g.writes o (g.after os)).2 := by
  rw [after, List.foldl_concat, does_upsert, after]

theorem sound_after (os : List Order) : g.Sound (g.after os) := by
  induction os using List.reverseRecOn with
  | nil => exact g.sound_empty
  | append_singleton os o ih =>
    rw [after_concat]
    exact ih.write g (g.writes_commits ih)

end Engine

end OrderDesk.Tables
