import ByteAsm.Table

namespace ByteAsm.Table

variable {κ κ' α : Type} {table : Table κ α} {key : κ} {value : α} {f : κ → κ'}

theorem entries_insert_of_not_mem [DecidableEq κ] (h : key ∉ table.entries.map Prod.fst) :
    (table.insert key value).entries = table.entries ++ [(key, value)] := by
  simp [insert, h]

theorem entries_insert_of_mem [DecidableEq κ] (h : key ∈ table.entries.map Prod.fst) :
    (table.insert key value).entries = assign key value table.entries := by
  simp [insert, h]

theorem mem_insert [DecidableEq κ] {key' : κ} {value' : α} :
    (key', value') ∈ (table.insert key value).entries ↔
      key' = key ∧ value' = value ∨ key' ≠ key ∧ (key', value') ∈ table.entries := by
  by_cases h : key ∈ table.entries.map Prod.fst
  case pos =>
    have ⟨entry, hm, hk⟩ := List.mem_map.mp h
    simp only [insert, dif_pos h, assign, List.mem_map]
    constructor
    case mp =>
      rintro ⟨entry', hm', he⟩
      split at he
      case isTrue => exact .inl ⟨(congrArg Prod.fst he).symm, (congrArg Prod.snd he).symm⟩
      case isFalse hne =>
        subst he
        exact .inr ⟨hne, hm'⟩
    case mpr =>
      rintro (⟨hk', hv⟩ | ⟨hne, hm'⟩)
      case inl => exact ⟨entry, hm, by simp [hk, hk', hv]⟩
      case inr => exact ⟨_, hm', if_neg hne⟩
  case neg =>
    have hne : (key', value') ∈ table.entries → key' ≠ key :=
      fun hm he => h (he ▸ List.mem_map_of_mem hm)
    rw [entries_insert_of_not_mem h, List.mem_append, List.mem_singleton, Prod.mk.injEq]
    exact ⟨Or.symm ∘ Or.imp (fun hm => ⟨hne hm, hm⟩) id, Or.symm ∘ Or.imp id And.right⟩

-- The same values under other keys.
def mapKeys (f : κ → κ') (hf : Function.Injective f) (table : Table κ α) : Table κ' α where
  entries := table.entries.map fun entry => (f entry.1, entry.2)
  nodup   := by
    rw [List.map_map]
    exact List.pairwise_map.mpr ((List.pairwise_map.mp table.nodup).imp fun hne he => hne (hf he))

theorem keys_mapKeys (hf : Function.Injective f) (table : Table κ α) :
    (table.mapKeys f hf).entries.map Prod.fst = (table.entries.map Prod.fst).map f := by
  simp only [mapKeys, List.map_map]
  rfl

theorem mapKeys_insert [DecidableEq κ] [DecidableEq κ'] (hf : Function.Injective f)
    (h : key ∉ table.entries.map Prod.fst) :
    (table.insert key value).mapKeys f hf = (table.mapKeys f hf).insert (f key) value := by
  have h' : f key ∉ (table.mapKeys f hf).entries.map Prod.fst := by
    rw [keys_mapKeys]
    intro hm
    have ⟨key', hm, he⟩ := List.mem_map.mp hm
    exact h (hf he ▸ hm)
  rw [Table.mk.injEq, entries_insert_of_not_mem h']
  simp [mapKeys, entries_insert_of_not_mem h]

-- Other values under the same keys.
def mapValues {β : Type} (g : α → β) (table : Table κ α) : Table κ β where
  entries := table.entries.map fun entry => (entry.1, g entry.2)
  nodup   := by
    rw [List.map_map]
    exact table.nodup

theorem entries_mapValues {β : Type} (g : α → β) (table : Table κ α) :
    (table.mapValues g).entries = table.entries.map fun entry => (entry.1, g entry.2) :=
  rfl

theorem keys_mapValues {β : Type} (g : α → β) (table : Table κ α) :
    (table.mapValues g).entries.map Prod.fst = table.entries.map Prod.fst := by
  simp only [entries_mapValues, List.map_map]
  rfl

theorem mapValues_insert {β : Type} [DecidableEq κ] (g : α → β) (table : Table κ α) (key : κ)
    (value : α) :
    (table.insert key value).mapValues g = (table.mapValues g).insert key (g value) := by
  rw [Table.mk.injEq, entries_mapValues]
  by_cases h : key ∈ table.entries.map Prod.fst
  case pos =>
    have h' := (keys_mapValues g table).symm ▸ h
    rw [entries_insert_of_mem h, entries_insert_of_mem h', entries_mapValues]
    simp only [assign, List.map_map]
    refine List.map_congr_left fun entry _ => ?_
    simp only [Function.comp]
    split <;> rfl
  case neg =>
    have h' := (keys_mapValues g table).symm ▸ h
    rw [entries_insert_of_not_mem h, entries_insert_of_not_mem h', entries_mapValues,
      List.map_append]
    rfl

theorem entries_foldl_insert [DecidableEq κ] {entries : List (κ × α)} (table : Table κ α)
    (h : (table.entries.map Prod.fst ++ entries.map Prod.fst).Nodup) :
    (entries.foldl (fun table entry => table.insert entry.1 entry.2) table).entries =
      table.entries ++ entries := by
  induction entries generalizing table
  case nil => simp
  case cons entry entries hi =>
    have hn : entry.1 ∉ table.entries.map Prod.fst := by
      intro hm
      exact (List.nodup_append.mp h).right.right _ hm _ (by simp) rfl
    have he : (table.insert entry.1 entry.2).entries = table.entries ++ [entry] :=
      entries_insert_of_not_mem hn
    rw [List.foldl_cons, hi, he, List.append_assoc, List.singleton_append]
    rw [he]
    simpa using h

theorem entries_ofEntries [DecidableEq κ] {entries : List (κ × α)}
    (h : (entries.map Prod.fst).Nodup) : (ofEntries entries).entries = entries :=
  entries_foldl_insert empty (by simpa [empty] using h)

theorem ofEntries_entries [DecidableEq κ] (table : Table κ α) :
    ofEntries table.entries = table := by
  rw [Table.mk.injEq]
  exact entries_ofEntries table.nodup

variable [BEq κ] [LawfulBEq κ]

theorem find?_eq_some_iff : table.find? key = some value ↔ (key, value) ∈ table.entries := by
  rw [find?, List.lookup_eq_some_iff]
  constructor
  case mp =>
    intro ⟨before, after, he, _⟩
    simp [he]
  case mpr =>
    intro hm
    have ⟨before, after, he⟩ := List.append_of_mem hm
    refine ⟨before, after, he, fun entry hb => ?_⟩
    -- Another entry for `key` before this one would repeat a key.
    have hn := he ▸ table.nodup
    simp only [List.map_append, List.map_cons, List.nodup_append] at hn
    have hne := hn.right.right entry.1 (List.mem_map_of_mem hb) key List.mem_cons_self
    simpa using Ne.symm hne

theorem find?_eq_none_iff : table.find? key = none ↔ key ∉ table.entries.map Prod.fst := by
  rw [find?, List.lookup_eq_none_iff]
  constructor
  case mp =>
    intro hn hm
    have ⟨entry, he, hk⟩ := List.mem_map.mp hm
    simpa [hk] using hn entry he
  case mpr =>
    intro hn entry he
    have hne : key ≠ entry.1 := fun hk => hn <| hk ▸ List.mem_map_of_mem he
    simpa using hne

-- The order of the entries does not matter.
theorem find?_of_perm {table' : Table κ α} (h : table'.entries.Perm table.entries) (key : κ) :
    table'.find? key = table.find? key :=
  Option.ext fun value => by rw [find?_eq_some_iff, find?_eq_some_iff, h.mem_iff]

-- The new value hides an older one for the key, and that of no other key.
theorem find?_insert [DecidableEq κ] (table : Table κ α) (key key' : κ) (value : α) :
    (table.insert key value).find? key' = if key' = key then some value else table.find? key' := by
  refine Option.ext fun value' => ?_
  rw [find?_eq_some_iff, mem_insert]
  by_cases he : key' = key
  case pos => simp [he, eq_comm]
  case neg => simp [he, find?_eq_some_iff]

-- Entries that agree on common keys are all found once they are inserted. What the table held
-- before is still found under the other keys.
theorem find?_foldl_insert [DecidableEq κ] {entries : List (κ × α)}
    (h : ∀ x ∈ entries, ∀ y ∈ entries, x.1 = y.1 → x = y) (table : Table κ α) :
    (entries.foldl (fun table entry => table.insert entry.1 entry.2) table).find? key =
      some value ↔ (key, value) ∈ entries ∨
        key ∉ entries.map Prod.fst ∧ table.find? key = some value := by
  induction entries generalizing table
  case nil => simp
  case cons entry entries hi =>
    have ⟨hentry, hrest⟩ := List.forall_mem_cons.mp h
    have hrest := fun x hx => (List.forall_mem_cons.mp (hrest x hx)).right
    rw [List.foldl_cons, hi hrest, find?_insert, List.mem_cons, List.map_cons, List.mem_cons,
      not_or]
    obtain ⟨key', value'⟩ := entry
    by_cases hk : key = key'
    case neg =>
      rw [if_neg hk, Prod.mk.injEq]
      simp only [hk, false_and, false_or, not_false_eq_true, true_and]
    case pos =>
      subst hk
      rw [if_pos rfl, Prod.mk.injEq, Option.some.injEq]
      constructor
      case mp =>
        rintro (hm | ⟨_, hv⟩)
        case inl => exact .inl (.inr hm)
        case inr => exact .inl (.inl ⟨rfl, hv.symm⟩)
      case mpr =>
        rintro ((⟨_, hv⟩ | hm) | ⟨hne, _⟩)
        case inl.inr => exact .inl hm
        case inr => exact absurd rfl hne.left
        case inl.inl =>
          by_cases hm : key ∈ entries.map Prod.fst
          case neg => exact .inr ⟨hm, hv.symm⟩
          case pos =>
            -- A later entry for the key repeats this one.
            obtain ⟨entry, hentries, rfl⟩ := List.mem_map.mp hm
            have he := hentry entry (List.mem_cons_of_mem _ hentries) rfl
            exact .inl (hv ▸ he ▸ hentries)

theorem find?_ofEntries [DecidableEq κ] {entries : List (κ × α)}
    (h : ∀ x ∈ entries, ∀ y ∈ entries, x.1 = y.1 → x = y) :
    (ofEntries entries).find? key = some value ↔ (key, value) ∈ entries := by
  have he : (empty : Table κ α).find? key = none := rfl
  rw [ofEntries, find?_foldl_insert h, he]
  simp

theorem find?_mapKeys [BEq κ'] [LawfulBEq κ'] (hf : Function.Injective f) (table : Table κ α)
    (key : κ) : (table.mapKeys f hf).find? (f key) = table.find? key := by
  refine Option.ext fun value => ?_
  rw [find?_eq_some_iff, find?_eq_some_iff]
  simp only [mapKeys, List.mem_map, Prod.mk.injEq]
  constructor
  case mp =>
    intro ⟨entry, hm, hk, hv⟩
    exact hf hk ▸ hv ▸ hm
  case mpr => exact fun hm => ⟨_, hm, rfl, rfl⟩

end ByteAsm.Table
