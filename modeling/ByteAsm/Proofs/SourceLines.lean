import ByteAsm.Source

namespace ByteAsm.Source

variable {t line : Text} {texts : List Text}

-- The lines cut off so far stand in front.
theorem lines_go_done (line : Text) (done : List Text) (t : Text) :
    lines.go line done t = done.reverse ++ lines.go line [] t := by
  induction t generalizing line done
  case nil => cases line <;> simp [lines.go]
  case cons c t hi =>
    simp only [lines.go]
    split
    case isTrue => rw [hi _ (_ :: done), hi _ [_], List.reverse_cons, List.append_assoc]; rfl
    case isFalse => rw [hi]

theorem lines_go_append (ht : '\n'.toUInt8 ∉ t) (line rest : Text) :
    lines.go line [] (t ++ rest) = lines.go (t.reverse ++ line) [] rest := by
  induction t generalizing line
  case nil => rfl
  case cons c t hi =>
    have ⟨hc, ht⟩ := not_or.mp (mt List.mem_cons.mpr ht)
    simp only [List.cons_append, lines.go, beq_iff_eq, if_neg (Ne.symm hc), hi ht,
      List.reverse_cons, List.append_assoc, List.nil_append]

theorem lines_append_newline (ht : '\n'.toUInt8 ∉ t) (rest : Text) :
    lines (t ++ '\n'.toUInt8 :: rest) = t :: lines rest := by
  rw [lines, lines_go_append ht, lines.go, if_pos (beq_self_eq_true _), lines_go_done]
  simp [lines]

theorem lines_of_no_newline (ht : '\n'.toUInt8 ∉ t) (hn : t ≠ []) : lines t = [t] := by
  have h := lines_go_append ht [] []
  rw [List.append_nil, List.append_nil] at h
  rw [lines, h]
  cases hr : t.reverse
  case nil => exact absurd (List.reverse_eq_nil_iff.mp hr) hn
  case cons c line => simp [lines.go, ←hr]

-- The line being read holds no line feed, and neither do those cut off before.
theorem newline_not_mem_go {done : List Text} (hl : '\n'.toUInt8 ∉ line)
    (hd : ∀ cut ∈ done, '\n'.toUInt8 ∉ cut) : ∀ cut ∈ lines.go line done t, '\n'.toUInt8 ∉ cut := by
  induction t generalizing line done
  case nil =>
    intro cut hm
    cases line
    case nil => exact hd cut (List.mem_reverse.mp hm)
    case cons c line =>
      cases List.mem_cons.mp (List.mem_reverse.mp hm)
      case inl he => exact he ▸ mt List.mem_reverse.mp hl
      case inr hm => exact hd cut hm
  case cons c t hi =>
    simp only [lines.go]
    split
    case isTrue =>
      have hd' : ∀ cut ∈ line.reverse :: done, '\n'.toUInt8 ∉ cut :=
        List.forall_mem_cons.mpr ⟨mt List.mem_reverse.mp hl, hd⟩
      exact hi List.not_mem_nil hd'
    case isFalse hc =>
      have hc : '\n'.toUInt8 ≠ c := fun h => hc (beq_iff_eq.mpr h.symm)
      exact hi (mt List.mem_cons.mp (not_or.mpr ⟨hc, hl⟩)) hd

theorem newline_not_mem_of_mem_lines (h : line ∈ lines t) : '\n'.toUInt8 ∉ line :=
  newline_not_mem_go List.not_mem_nil (by simp) line h

theorem lines_terminated (h : ∀ t ∈ texts, '\n'.toUInt8 ∉ t) :
    lines (texts.flatMap (· ++ ['\n'.toUInt8])) = texts := by
  induction texts
  case nil => rfl
  case cons t texts hi =>
    have ⟨ht, h⟩ := List.forall_mem_cons.mp h
    rw [List.flatMap_cons, List.append_assoc, List.singleton_append, lines_append_newline ht, hi h]

theorem exists_lines_join (h : ∀ t ∈ texts, '\n'.toUInt8 ∉ t) :
    ∃ lost, texts = lines (Text.join ['\n'.toUInt8] texts) ++ lost ∧ (lost = [] ∨ lost = [[]]) := by
  induction texts
  case nil => exact ⟨[], rfl, .inl rfl⟩
  case cons t texts hi =>
    have ⟨ht, h⟩ := List.forall_mem_cons.mp h
    cases ht' : texts
    case nil =>
      have hj : Text.join ['\n'.toUInt8] [t] = t := by simp [Text.join, List.intercalate]
      rw [hj]
      by_cases hn : t = []
      case pos => exact ⟨[[]], by simp [hn, lines, lines.go], .inr rfl⟩
      case neg => exact ⟨[], by simp [lines_of_no_newline ht hn], .inl rfl⟩
    case cons =>
      have ⟨lost, he, hl⟩ := hi h
      have hj : Text.join ['\n'.toUInt8] (t :: texts) =
          t ++ '\n'.toUInt8 :: Text.join ['\n'.toUInt8] texts := by
        simp [ht', Text.join, List.intercalate]
      refine ⟨lost, ?_, hl⟩
      rw [←ht', hj, lines_append_newline ht, List.cons_append, ←he]

-- A carriage return at the end is all that the content of a line may lack.
theorem content_cases (raw : Text) : content raw = raw ∨ raw = content raw ++ ['\r'.toUInt8] := by
  unfold content Text.dropEnd?
  split
  case isFalse => exact .inl rfl
  case isTrue h =>
    refine .inr ?_
    have hl := List.getLast?_eq_some_iff.mp (eq_of_beq h)
    have ⟨front, he⟩ := hl
    simp [he]

end ByteAsm.Source
