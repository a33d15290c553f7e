import Mathlib.Data.List.Basic
import OrderDesk.Log.Message
import OrderDesk.Proofs.Text.Decimal
import OrderDesk.Proofs.Text.Utf8

/-!
Keys of messages. A processed key is read from its end: no number holds the separator, so offset and
partition are what stands behind the last two, whatever the key of the message is. Messages of one
processed key have one position, and the same text as their keys.
-/

namespace OrderDesk

namespace Text.Decimal

theorem underscore_not_mem_ofInt (i : Int) : '_' ∉ ofInt i := by
  intro h
  unfold ofInt at h
  split at h
  · rcases List.mem_cons.1 h with h | h
    · exact absurd h (by decide)
    · exact absurd (isDigit_of_mem_ofNat h) (by decide)
  · exact absurd (isDigit_of_mem_ofNat h) (by decide)

end Text.Decimal

section Separators

variable {α : Type} {a : α} {xs ys us vs : List α}

theorem eq_of_append_separator (hy : a ∉ ys) (hv : a ∉ vs) (h : xs ++ a :: ys = us ++ a :: vs) :
    ys = vs := by
  -- one separator would stand in the other tail unless both are the same
  rcases List.append_eq_append_iff.1 h with ⟨ws, -, hw⟩ | ⟨ws, -, hw⟩
  · cases ws with
    | nil => exact (List.cons.inj hw).2
    | cons w ws =>
      refine absurd ?_ hy
      rw [(List.cons.inj hw).2]
      simp
  · cases ws with
    | nil => exact (List.cons.inj hw).2.symm
    | cons w ws =>
      refine absurd ?_ hv
      rw [(List.cons.inj hw).2]
      simp

theorem append_separator_inj (hy : a ∉ ys) (hv : a ∉ vs) :
    xs ++ a :: ys = us ++ a :: vs ↔ xs = us ∧ ys = vs := by
  constructor
  · intro h
    obtain rfl := eq_of_append_separator hy hv h
    exact ⟨List.append_cancel_right h, rfl⟩
  · rintro ⟨rfl, rfl⟩
    rfl

end Separators

namespace Message

variable {m n : Message}

theorem toList_processedKey (m : Message) :
    m.processedKey.toList =
      (m.keyText.toList ++ '_' :: Text.Decimal.ofInt m.partition.toInt) ++
        '_' :: Text.Decimal.ofInt m.offset.toInt := by
  simp [processedKey, Text.Decimal.intText]

theorem processedKey_inj : m.processedKey = n.processedKey ↔
    m.keyText = n.keyText ∧ m.partition = n.partition ∧ m.offset = n.offset := by
  have hnumber (i : Int) := Text.Decimal.underscore_not_mem_ofInt i
  rw [← String.toList_inj, toList_processedKey, toList_processedKey,
    append_separator_inj (hnumber _) (hnumber _), append_separator_inj (hnumber _) (hnumber _),
    Text.Decimal.ofInt_injective.eq_iff, Text.Decimal.ofInt_injective.eq_iff, Int32.toInt_inj,
    Int64.toInt_inj, String.toList_inj, and_assoc]

def keyBytes (m : Message) : Text.Utf8.Bytes := m.key.getD []

theorem keyText_eq (m : Message) : m.keyText = Text.Utf8.toStringLossy m.keyBytes := by
  unfold keyText keyBytes
  cases m.key <;> rfl

theorem keyText_inj {cs ds : List Char} (hm : Text.Utf8.decode? m.keyBytes = some cs)
    (hn : Text.Utf8.decode? n.keyBytes = some ds) :
    m.keyText = n.keyText ↔ m.keyBytes = n.keyBytes := by
  rw [Text.Utf8.decode?_eq_some_iff] at hm hn
  rw [keyText_eq, keyText_eq]
  constructor
  · intro h
    rw [hm, hn, Text.Utf8.toStringLossy_encode, Text.Utf8.toStringLossy_encode,
      String.ofList_inj] at h
    rw [hm, hn, h]
  · exact fun h => congrArg _ h

def HasTextKey (m : Message) : Prop := (Text.Utf8.decode? m.keyBytes).isSome = true

instance (m : Message) : Decidable m.HasTextKey := inferInstanceAs (Decidable (_ = true))

structure ToldApart (m n : Message) : Prop where
  same_iff : m.processedKey = n.processedKey ↔
    Text.Utf8.toStringLossy m.keyBytes = Text.Utf8.toStringLossy n.keyBytes ∧
      m.partition = n.partition ∧ m.offset = n.offset
  /-- No two positions share a key, whatever the messages hold. -/
  positions : (m.partition, m.offset) ≠ (n.partition, n.offset) → m.processedKey ≠ n.processedKey
  /-- Where nothing is replaced in reading the keys, their bytes are the same. -/
  bytes : m.HasTextKey → n.HasTextKey →
    (m.processedKey = n.processedKey ↔
      m.keyBytes = n.keyBytes ∧ m.partition = n.partition ∧ m.offset = n.offset)

theorem toldApart (m n : Message) : m.ToldApart n := by
  constructor
  case same_iff =>
    rw [processedKey_inj, keyText_eq, keyText_eq]
  case positions =>
    intro hne h
    obtain ⟨-, hpartition, hoffset⟩ := processedKey_inj.1 h
    exact hne (Prod.ext hpartition hoffset)
  case bytes =>
    intro hm hn
    obtain ⟨cs, hcs⟩ := Option.isSome_iff_exists.1 hm
    obtain ⟨ds, hds⟩ := Option.isSome_iff_exists.1 hn
    rw [processedKey_inj, keyText_inj hcs hds]

theorem toldApart_sample :
    let m : Message := ⟨"orders", some (Text.Utf8.ofString "a_-1"), none, 0, 7⟩
    let n : Message := ⟨"orders", some (Text.Utf8.ofString "a"), none, -1, 7⟩
    m.processedKey = "a_-1_0_7" ∧ n.processedKey = "a_-1_7" ∧ m.HasTextKey ∧ n.HasTextKey ∧
      m.processedKey ≠ n.processedKey := by
  intro m n
  exact ⟨by decide, by decide, by decide, by decide, (m.toldApart n).positions (by decide)⟩

end Message

end OrderDesk
