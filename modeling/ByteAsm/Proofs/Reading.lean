import ByteAsm.Proofs.Grammar
import ByteAsm.Proofs.Instructions
import ByteAsm.Proofs.Layout

namespace ByteAsm

namespace Layout

-- The names that expressions on the line below `above` may use. A label counts from the line below
-- its own on, unless it starts with a dot.
def scope (asm : Assembler) (labels : Table Text Int) (above : List Line) (name : Text) :
    Option Int :=
  (if name.head? ≠ some '.'.toUInt8 ∧ some name ∈ above.map Line.label then labels.find? name
    else none)
    |>.or (asm.constant? name)
    |>.or (if name = Text.ofString "LINENO" then some above.length else none)

def value? (asm : Assembler) (labels : Table Text Int) (above : List Line) : Text → Option Int :=
  asm.evaluator (scope asm labels above)

structure Reading (asm : Assembler) (labels : Table Text Int) (raws texts : List Text)
    (lines : List Line) : Prop where
  expands : raws.mapIdx (fun i raw =>
    Expansion.expand (value? asm labels (lines.take i)) (Source.content raw)) = texts.map .ok
  reads   : texts.map Line.read = lines.map .ok

end Layout

theorem Line.readIn_eq_ok {value? : Text → Option Int} {t : Text} {line : Line}
    (h : readIn value? t = .ok line) :
    ∃ text, Expansion.expand value? t = .ok text ∧ read text = .ok line := by
  unfold readIn at h
  split at h
  case h_1 text he => exact ⟨text, he, h⟩
  case h_2 => contradiction

theorem Line.isLabel_of_read {t name : Text} {line : Line} (h : read t = .ok line)
    (hl : line.label = some name) : Word.isLabel name := by
  obtain ⟨_, hw, _, _, _⟩ := written_of_read h
  subst hl
  obtain _ | hn := hw
  exact hn

namespace Draft

variable {asm : Assembler} {d d' d₁ : Draft} {n : Nat} {line : Line} {raws raws₁ raws₂ : List Text}
  {lines lines₁ lines₂ : List Line}

-- Each command of a line that was added fits the instruction set.
theorem Step.fits {raw : Text} {c : Command} (st : Step asm n raw line d d')
    (hc : line.command = some c) : ∃ s, c.statement = .ok s ∧ c.Fits s := by
  have ⟨text, _, hr⟩ := Line.readIn_eq_ok st.reads
  have ha : c.mnemonic.isAscii := Line.isAscii_mnemonic (Line.written_of_read hr) hc
  have ⟨_, _, h⟩ := add_eq_ok_iff.mp st.adds
  cases h
  case inl h => simp [hc] at h
  case inr h =>
    have ⟨c', s, hc', hs, _⟩ := h
    cases hc ▸ hc'
    exact ⟨s, hs, (Command.statement_eq_ok_iff ha).mp hs⟩

theorem Run.fits (r : Run asm n raws lines d d') :
    ∀ line ∈ lines, ∀ c ∈ line.command, ∃ s, c.statement = .ok s ∧ c.Fits s := by
  induction r
  case refl => simp
  case step st _ hi =>
    simp only [List.forall_mem_cons]
    exact ⟨fun _ hc => st.fits hc, hi⟩

theorem Run.labels_eq (r : Run asm 0 raws lines {} d) :
    d.labels.entries = Layout.labels 0 lines :=
  (r.extends .empty).labels

theorem Run.mem_labels_iff (r : Run asm 0 raws lines {} d) (name : Text) :
    name ∈ d.labels.entries.map Prod.fst ↔ some name ∈ lines.map Line.label := by
  rw [r.labels_eq, Layout.labels_keys]
  simp

theorem Run.find?_of_label (r : Run asm 0 raws lines {} d) {i : Nat} {line : Line} {name : Text}
    (hi : lines[i]? = some line) (hl : line.label = some name) :
    d.labels.find? name = some ((Layout.slots (lines.take i)).length : Int) := by
  rw [Table.find?_eq_some_iff, r.labels_eq, Layout.mem_labels_iff]
  exact ⟨i, line, hi, hl, by simp⟩

theorem Run.find?_of_no_label (r : Run asm 0 raws lines {} d) {name : Text}
    (h : ∀ line ∈ lines, line.label ≠ some name) : d.labels.find? name = none := by
  rw [Table.find?_eq_none_iff, r.mem_labels_iff]
  intro hm
  obtain ⟨line, hm, hl⟩ := List.mem_map.mp hm
  exact h line hm hl

-- The labels of a draft keep their offsets while more lines are added.
theorem Extends.find?_eq (e : Extends n lines d₁ d) {name : Text}
    (h : name ∈ d₁.labels.entries.map Prod.fst) : d.labels.find? name = d₁.labels.find? name := by
  have ⟨⟨_, offset⟩, hm, hn⟩ := List.mem_map.mp h
  subst hn
  have h₁ := Table.find?_eq_some_iff.mpr hm
  have h₂ : d.labels.find? _ = some offset :=
    Table.find?_eq_some_iff.mpr (e.labels ▸ List.mem_append_left _ hm)
  rw [h₁, h₂]

theorem Run.scope_eq (r₁ : Run asm 0 raws₁ lines₁ {} d₁) (r₂ : Run asm n raws₂ lines₂ d₁ d) :
    d₁.scope asm lines₁.length = Layout.scope asm d.labels lines₁ := by
  funext name
  unfold Draft.scope Layout.scope
  by_cases hm : some name ∈ lines₁.map Line.label
  case pos => 
    have e := r₂.extends (r₁.coherent .empty)
    simp [hm, e.find?_eq ((r₁.mem_labels_iff name).mpr hm)]
  case neg =>
    have hf : d₁.labels.find? name = none :=
      Table.find?_eq_none_iff.mpr fun h => hm ((r₁.mem_labels_iff name).mp h)
    simp [hm, hf]

theorem Run.value?_eq (r₁ : Run asm 0 raws₁ lines₁ {} d₁) (r₂ : Run asm n raws₂ lines₂ d₁ d) :
    d₁.value? asm lines₁.length = Layout.value? asm d.labels lines₁ :=
  congrArg asm.evaluator (r₁.scope_eq r₂)

-- The induction is on the lines left to read; those above them only grow.
theorem Run.reading_below (r₁ : Run asm 0 raws₁ lines₁ {} d₁) (hn : n = lines₁.length)
    (r₂ : Run asm n raws₂ lines₂ d₁ d) :
    ∃ texts : List Text, raws₂.mapIdx (fun i raw =>
        Expansion.expand (Layout.value? asm d.labels (lines₁ ++ lines₂.take i))
          (Source.content raw)) = texts.map .ok ∧
      texts.map Line.read = lines₂.map .ok := by
  induction r₂ generalizing raws₁ lines₁
  case refl => exact ⟨[], rfl, rfl⟩
  case step raw line d₁ d₂ raws lines d s r₂ hi =>
    have hs := r₁.value?_eq (.step s r₂)
    have r₁' := r₁.snoc (s := by simpa [hn, r₁.length_eq] using s)
    have ⟨texts, he, hr⟩ := hi r₁' (by simp [hn])
    have ⟨text, he₁, hr₁⟩ := Line.readIn_eq_ok s.reads
    rw [hn, hs] at he₁
    refine ⟨text :: texts, ?_, by simp [hr, hr₁]⟩
    simpa [List.mapIdx_cons, he₁] using he

theorem Run.reading (r : Run asm 0 raws lines {} d) :
    ∃ texts, Layout.Reading asm d.labels raws texts lines := by
  have ⟨texts, he, hr⟩ := Run.reading_below .refl rfl r
  exact ⟨texts, he, hr⟩

end Draft

end ByteAsm
