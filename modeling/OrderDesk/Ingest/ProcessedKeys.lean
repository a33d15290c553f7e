import OrderDesk.Text.Decimal
import OrderDesk.Time.Instant

/-!
Keys of processed messages, each with the instant at which it was last marked. They tell a message
that is delivered again, until a purge finds them too old.
-/

namespace OrderDesk

structure ProcessedKeys where
  marks : List (String × Instant)
  distinct : (marks.map Prod.fst).Nodup

namespace ProcessedKeys

def empty : ProcessedKeys := ⟨[], .nil⟩

instance : Inhabited ProcessedKeys := ⟨empty⟩

def size (k : ProcessedKeys) : Nat := k.marks.length

def contains (k : ProcessedKeys) (key : String) : Bool := k.marks.any fun m => m.1 = key

theorem nodup_filter {ms : List (String × Instant)} (h : (ms.map Prod.fst).Nodup)
    (p : String × Instant → Bool) : ((ms.filter p).map Prod.fst).Nodup :=
  (List.Sublist.map Prod.fst List.filter_sublist).nodup h

def mark (k : ProcessedKeys) (key : String) (now : Instant) : ProcessedKeys where
  marks := (key, now) :: k.marks.filter fun m => m.1 ≠ key
  distinct := by
    refine List.nodup_cons.2 ⟨?_, nodup_filter k.distinct _⟩
    simp

def since (k : ProcessedKeys) (cutoff : Instant) : ProcessedKeys where
  marks := k.marks.filter fun m => cutoff.nanos ≤ m.2.nanos
  distinct := nodup_filter k.distinct _

def stale (k : ProcessedKeys) (age : Span) (now : Instant) : List String :=
  match now.before? age with
  | some cutoff => (k.marks.filter fun m => m.2.nanos < cutoff.nanos).map Prod.fst
  | none => []

/-- Drops the keys marked more than `age` ago, and tells how many. An age beyond what instants can
be moved by drops nothing. -/
def purge (k : ProcessedKeys) (age : Span) (now : Instant) : Nat × ProcessedKeys :=
  match now.before? age with
  | some cutoff => (k.size - (k.since cutoff).size, k.since cutoff)
  | none => (0, k)

def summary (k : ProcessedKeys) : String :=
  "ProcessedKeys \x7b len: " ++ Text.Decimal.natText k.size ++ ", .. \x7d"

end ProcessedKeys

end OrderDesk
