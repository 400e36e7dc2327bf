import ByteAsm.Listing
import ByteAsm.Proofs.Table

namespace ByteAsm.Table

variable {κ α : Type} {table table' : Table κ α} {arranged arranged' : List (κ × α)}

-- All entries of a table, each of them before the larger ones.
structure Arranges [BEq κ] (lt : κ × α → κ × α → Prop) (table : Table κ α)
    (arranged : List (κ × α)) : Prop where
  mem_iff    : ∀ key value, (key, value) ∈ arranged ↔ table.find? key = some value
  increasing : arranged.Pairwise lt

namespace Arranges

variable [BEq κ] {lt : κ × α → κ × α → Prop}

theorem congr (h : table.Arranges lt arranged) (hf : ∀ key, table'.find? key = table.find? key) :
    table'.Arranges lt arranged where
  mem_iff key value := hf key ▸ h.mem_iff key value
  increasing        := h.increasing

theorem find?_of_mem {entry : κ × α} (h : table.Arranges lt arranged) (hm : entry ∈ arranged) :
    table.find? entry.1 = some entry.2 :=
  (h.mem_iff entry.1 entry.2).mp hm

-- Two entries for one key would be the same entry, which does not come before itself.
theorem keys_nodup (h : table.Arranges lt arranged) (hlt : ∀ a b, lt a b → ¬lt b a) :
    (arranged.map Prod.fst).Nodup := by
  refine List.pairwise_map.mpr (h.increasing.imp_of_mem fun {a b} ha hb hab hk => ?_)
  have hv : some a.2 = some b.2 := by
    rw [←h.find?_of_mem ha, hk, h.find?_of_mem hb]
  have he : a = b := Prod.ext hk (Option.some.inj hv)
  exact hlt a b hab (he ▸ hab)

-- In an order without cycles the members of a list leave no choice.
theorem unique (h : table.Arranges lt arranged) (h' : table.Arranges lt arranged')
    (hlt : ∀ a b, lt a b → ¬lt b a) : arranged = arranged' := by
  have nodup {l : List (κ × α)} (hl : l.Pairwise lt) : l.Nodup :=
    hl.imp fun {a b} hab (he : a = b) => hlt a b hab (he ▸ hab)
  have hp : arranged.Perm arranged' := by
    refine (List.perm_ext_iff_of_nodup (nodup h.increasing) (nodup h'.increasing)).mpr ?_
    exact fun entry => (h.mem_iff entry.1 entry.2).trans (h'.mem_iff entry.1 entry.2).symm
  refine hp.eq_of_pairwise (fun a b _ _ hab hba => ?_) h.increasing h'.increasing
  exact absurd hba (hlt a b hab)

end Arranges

theorem arranges_of_perm [BEq κ] [LawfulBEq κ] {lt : κ × α → κ × α → Prop}
    (hp : arranged.Perm table.entries) (hi : arranged.Pairwise lt) :
    table.Arranges lt arranged where
  mem_iff _ _ := hp.mem_iff.trans find?_eq_some_iff.symm
  increasing  := hi

-- No two entries have the same key, so that those in ascending order are in strict order.
theorem arranges_mergeSort [BEq κ] [LawfulBEq κ] {lt : κ × α → κ × α → Prop}
    {le : κ × α → κ × α → Bool} (table : Table κ α) (trans : ∀ a b c, le a b → le b c → le a c)
    (total : ∀ a b, le a b || le b a) (hlt : ∀ a b, le a b → a.1 ≠ b.1 → lt a b) :
    table.Arranges lt (table.entries.mergeSort le) := by
  have hp := List.mergeSort_perm table.entries le
  have hk : ((table.entries.mergeSort le).map Prod.fst).Nodup :=
    (hp.map Prod.fst).nodup_iff.mpr table.nodup
  have hs := (List.pairwise_mergeSort trans total table.entries).and (List.pairwise_map.mp hk)
  exact arranges_of_perm hp (hs.imp fun {a b} h => hlt a b h.left h.right)

def ByKey [LT κ] (a b : κ × α) : Prop :=
  a.1 < b.1

-- Entries with equal values go by their keys.
def ByValue [LT κ] [LT α] (a b : κ × α) : Prop :=
  a.2 < b.2 ∨ a.2 = b.2 ∧ a.1 < b.1

instance [LT κ] [DecidableLT κ] (a b : κ × α) : Decidable (ByKey a b) :=
  inferInstanceAs (Decidable (_ < _))

instance [LT κ] [DecidableLT κ] [LT α] [DecidableLT α] [DecidableEq α] (a b : κ × α) :
    Decidable (ByValue a b) :=
  inferInstanceAs (Decidable (_ ∨ _))

section

variable [LT κ] [LE κ] [Std.LawfulOrderLT κ] [LT α] [LE α] [Std.LawfulOrderLT α]

theorem ByValue.asymm (a b : κ × α) (h : ByValue a b) : ¬ByValue b a := by
  rintro (h' | ⟨he', h'⟩)
  case inl =>
    cases h
    case inl h => exact Std.not_gt_of_lt h h'
    case inr h => exact Std.ne_of_lt h' h.left.symm
  case inr =>
    cases h
    case inl h => exact Std.ne_of_lt h he'.symm
    case inr h => exact Std.not_gt_of_lt h.right h'

variable [Std.IsLinearOrder κ] [DecidableLE κ] [BEq κ] [LawfulBEq κ] [Std.IsLinearOrder α]
  [DecidableLT α] [DecidableEq α]

theorem arranges_sortedByValue (table : Table κ α) :
    table.Arranges ByValue table.sortedByValue := by
  refine arranges_mergeSort table (fun a b c => ?_) (fun a b => ?_) (fun a b => ?_)
  case refine_1 =>
    simp only [decide_eq_true_eq]
    rintro (h | ⟨he, h⟩) (h' | ⟨he', h'⟩)
    case inl.inl => exact .inl (Std.lt_trans h h')
    case inl.inr => exact .inl (he' ▸ h)
    case inr.inl => exact .inl (he ▸ h')
    case inr.inr => exact .inr ⟨he.trans he', Std.le_trans h h'⟩
  case refine_2 =>
    simp only [Bool.or_eq_true, decide_eq_true_eq]
    rcases Std.lt_trichotomy a.2 b.2 with h | he | h
    case inl => exact .inl (.inl h)
    case inr.inl => exact (Std.le_total (a := a.1)).imp (.inr ⟨he, ·⟩) (.inr ⟨he.symm, ·⟩)
    case inr.inr => exact .inr (.inl h)
  case refine_3 =>
    simp only [decide_eq_true_eq]
    rintro (h | ⟨he, h⟩) hk
    case inl => exact .inl h
    case inr => exact .inr ⟨he, Std.lt_of_le_of_ne h hk⟩

end

section

variable [LT κ] [LE κ] [Std.LawfulOrderLT κ]

theorem ByKey.asymm (a b : κ × α) (h : ByKey a b) : ¬ByKey b a :=
  Std.not_gt_of_lt h

variable [Std.IsLinearOrder κ] [DecidableLE κ] [BEq κ] [LawfulBEq κ]

end

-- The entries that consumers see of a table, each of which takes a number of them: the first ones
-- of the only arrangement, with no key twice and with the values that the table has for the keys.
structure Canonical [BEq κ] (lt : κ × α → κ × α → Prop) (table : Table κ α)
    (seen : Nat → List (κ × α)) : Prop where
  arranged : ∃ arranged, table.Arranges lt arranged ∧
    (∀ other, table.Arranges lt other → other = arranged) ∧ ∀ k, seen k = arranged.take k
  keys     : ∀ k, ((seen k).map Prod.fst).Nodup
  values   : ∀ k, ∀ entry ∈ seen k, table.find? entry.1 = some entry.2

theorem Arranges.canonical [BEq κ] {lt : κ × α → κ × α → Prop} (h : table.Arranges lt arranged)
    (hlt : ∀ a b, lt a b → ¬lt b a) : table.Canonical lt (fun k => upTo (some k) arranged) where
  arranged      := ⟨arranged, h, fun _ h' => h'.unique h hlt, fun _ => rfl⟩
  keys k        := (h.keys_nodup hlt).sublist ((List.take_sublist k arranged).map Prod.fst)
  values _ _ hm := h.find?_of_mem (List.mem_of_mem_take hm)

end ByteAsm.Table
