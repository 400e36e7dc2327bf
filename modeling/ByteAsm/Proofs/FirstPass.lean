import ByteAsm.Draft

namespace ByteAsm

-- The parts of a line where expressions have given values: these are put in their places first.
def Line.readIn (value? : Text → Option Int) (text : Text) : Except Error Line :=
  match Expansion.expand value? text with
  | .ok expanded => read expanded
  | .error e => .error e

namespace Draft

-- The label of a line is bound before the code of its command is placed.
def add (d : Draft) (n : Nat) (line : Line) : Except Error Draft :=
  match d.defineAny line.label with
  | .ok d => d.placeAny n line.command
  | .error e => .error e

theorem addLine_eq (asm : Assembler) (n : Nat) (text : Text) (d : Draft) :
    addLine asm n text d =
      match Line.readIn (d.value? asm n) text with
      | .ok line => d.add n line
      | .error e => .error e := by
  simp only [addLine, Line.readIn, bind, Except.bind]
  cases Expansion.expand (d.value? asm n) text <;> dsimp only
  case ok expanded =>
    cases Line.read expanded <;> dsimp only
    case ok line =>
      simp only [add]
      cases d.defineAny line.label <;> rfl

structure Step (asm : Assembler) (n : Nat) (raw : Text) (line : Line) (d d' : Draft) : Prop where
  short : raw.length < Source.lineLimit
  reads : Line.readIn (d.value? asm n) (Source.content raw) = .ok line
  adds  : d.add n line = .ok d'

-- The steps over lines of which the first has the number `n`.
inductive Run (asm : Assembler) : Nat → List Text → List Line → Draft → Draft → Prop
  | refl : Run asm n [] [] d d
  | step : (Step asm n raw line d₁ d₂) → (Run asm (n + 1) raws lines d₂ d₃) →
    Run asm n (raw :: raws) (line :: lines) d₁ d₃

variable {asm : Assembler} {d d' d₁ d₂ d₃ : Draft} {n : Nat} {raw : Text} {line line' : Line}
  {raws raws₁ raws₂ : List Text} {lines lines₁ lines₂ : List Line}

namespace Step

theorem addLine_eq_ok (s : Step asm n raw line d d') :
    addLine asm n (Source.content raw) d = .ok d' := by
  simp [addLine_eq, s.reads, s.adds]

theorem of_addLine_eq_ok
    (hs : raw.length < Source.lineLimit) (h : addLine asm n (Source.content raw) d = .ok d') :
    ∃ line, Step asm n raw line d d' := by
  rw [addLine_eq] at h
  split at h
  case h_1 line hr => exact ⟨line, hs, hr, h⟩
  case h_2 => contradiction

theorem deterministic (s₁ : Step asm n raw line d d₁) (s₂ : Step asm n raw line' d d₂) :
    line = line' ∧ d₁ = d₂ := by
  cases s₁.reads ▸ s₂.reads
  cases s₁.adds ▸ s₂.adds
  exact ⟨rfl, rfl⟩

end Step

namespace Run

theorem length_eq (r : Run asm n raws lines d d') : lines.length = raws.length := by
  induction r
  case refl         => rfl
  case step _ _ hi => simp [hi]

theorem addLines_eq_ok (r : Run asm n raws lines d d') : addLines asm n raws d = .ok d' := by
  induction r
  case refl => rfl
  case step s _ hi => simp [addLines, Nat.not_le_of_lt s.short, s.addLine_eq_ok, hi]

theorem of_addLines_eq_ok (h : addLines asm n raws d = .ok d') :
    ∃ lines, Run asm n raws lines d d' := by
  induction raws generalizing n d
  case nil =>
    cases h
    exact ⟨[], .refl⟩
  case cons raw raws hi =>
    simp only [addLines] at h
    split at h <;> try contradiction
    case isFalse hs =>
      split at h <;> try contradiction
      case h_1 d₁ ha =>
        have ⟨line, s⟩ := Step.of_addLine_eq_ok (Nat.lt_of_not_le hs) ha
        have ⟨lines, r⟩ := hi h
        exact ⟨line :: lines, .step s r⟩

theorem deterministic
    (r₁ : Run asm n raws lines₁ d d₁) (r₂ : Run asm n raws lines₂ d d₂) :
    lines₁ = lines₂ ∧ d₁ = d₂ := by
  induction r₁ generalizing lines₂ d₂
  case refl =>
    cases r₂
    exact ⟨rfl, rfl⟩
  case step s₁ _ hi =>
    cases r₂
    case step s₂ r₂ =>
      have ⟨hl, hd⟩ := s₁.deterministic s₂
      subst hl hd
      have ⟨hl, hd⟩ := hi r₂
      exact ⟨hl ▸ rfl, hd⟩

theorem trans
    (r₁ : Run asm n raws₁ lines₁ d₁ d₂) (r₂ : Run asm (n + raws₁.length) raws₂ lines₂ d₂ d₃) :
    Run asm n (raws₁ ++ raws₂) (lines₁ ++ lines₂) d₁ d₃ := by
  induction r₁
  case refl => exact r₂
  case step n _ _ raws _ _ _ _ s _ hi =>
    refine .step s (hi ?_)
    rwa [Nat.add_assoc, Nat.add_comm 1]

theorem snoc (r : Run asm n raws lines d₁ d₂) (s : Step asm (n + raws.length) raw line d₂ d₃) :
    Run asm n (raws ++ [raw]) (lines ++ [line]) d₁ d₃ :=
  r.trans (.step s .refl)

-- A run over two lists of lines stops between them.
theorem split (r : Run asm n (raws₁ ++ raws₂) lines d₁ d₃) :
    ∃ lines₁ lines₂ d₂, lines = lines₁ ++ lines₂ ∧ Run asm n raws₁ lines₁ d₁ d₂ ∧
      Run asm (n + raws₁.length) raws₂ lines₂ d₂ d₃ := by
  induction raws₁ generalizing n lines d₁
  case nil => exact ⟨[], lines, d₁, rfl, .refl, r⟩
  case cons raw raws₁ hi =>
    cases r
    case step line lines d₂ s r =>
      have ⟨lines₁, lines₂, d', hl, r₁, r₂⟩ := hi r
      refine ⟨line :: lines₁, lines₂, d', by simp [hl], .step s r₁, ?_⟩
      rwa [List.length_cons, Nat.add_comm raws₁.length, ←Nat.add_assoc]

end Run

end ByteAsm.Draft
