import ByteAsm.Proofs.Completeness

namespace ByteAsm

namespace Abstract

variable (asm : Assembler) (s : Spelling InstructionSet.data) (l : Literal)

theorem valid_string : Valid [⟨none, .string s l⟩] := by
  constructor <;> simp [defined, referenced, bracketed, Body.labels, Body.bracketed]

-- A string on a line of its own, without a line end.
theorem assemble_string (h : (s.text ++ ' '.toUInt8 :: l.text).length < Source.lineLimit) :
    asm.assemble { text := s.text ++ ' '.toUInt8 :: l.text } =
      .ok { code := l.bytes, mapping := ∅, labels := ∅,
            records := [⟨0, 0, [s.text, l.text], l.bytes, true⟩] } := by
  have hv := valid_string s l
  have hready := hv.ready
  have ht : Item.text ⟨none, .string s l⟩ = s.text ++ ' '.toUInt8 :: l.text :=
    Command.render_one s.text l.text
  have ho := (hready _ List.mem_cons_self).oneLine
  rw [←ht] at h ⊢
  have ⟨d, r⟩ := hv.exists_run asm List.prefix_rfl (List.forall_mem_singleton.mpr h)
  have hlines := Source.lines_of_no_newline ho (by simp [ht])
  rw [List.map_singleton, ←hlines] at r
  have hlabels := r.labels_eq.trans (labels_lines hready 0)
  have hd : d.labels = ∅ := by
    rw [Table.mk.injEq]
    exact hlabels
  refine Assembler.assemble_eq_ok_iff.mpr ⟨_, d, r, rfl, ?_, ?_⟩
  case refine_1 =>
    rw [references_lines hready]
    nofun
  case refine_2 =>
    have hc := @map_value_lines d.labels (fun _ => 0) _ hready nofun
    have hr := @records_lines d.labels (fun _ => 0) _ hready nofun 0 0
    rw [List.flatMap_singleton] at hc
    rw [←Layout.program_records] at hr
    have hm := Layout.mapped_program d.labels ([⟨none, .string s l⟩].map Item.line)
    rw [Program.Mapped, Program.instructions, hr] at hm
    rw [Program.mk.injEq]
    refine ⟨hc.symm, ?_, hd.symm, hr.symm⟩
    rw [Table.mk.injEq]
    exact hm.symm

-- The literal of characters that are given by a byte each.
def Literal.ofBytes (bs : List UInt8) (hn : bs ≠ []) (hl : '\n'.toUInt8 ∉ bs)
    (hq : '"'.toUInt8 ∉ bs.tail) : Literal where
  chars    := bs.map Char.ofUInt8
  nonempty := mt List.map_eq_nil_iff.mp hn
  latin    := List.forall_mem_map.mpr fun b _ => Nat.le_of_lt_succ b.toNat_lt
  oneLine  := Text.ofUInt8_not_mem_map hl
  closed   := List.map_tail ▸ Text.ofUInt8_not_mem_map hq

end Abstract

namespace Operand

open Abstract (Literal assemble_string)
open Text (inQuotes ofLatin latinBytes utf16Length)

-- The first part is about every text, well formed or not; the second about every list of bytes that
-- has no line feed and no quote that would end the string too early.
theorem quotes_round_trip :
    (∀ t : Text,
      (∀ op, classify (inQuotes '"' t) = .ok op ↔
        ∃ cs, t.Latin cs ∧ op = { kind := .numbers, values := latinBytes cs }) ∧
      (∀ op, classify (inQuotes '"' t) = .ok op → ofLatin op.values = t) ∧
      (classify (inQuotes '"' t) = .error .malformed ↔ t = []) ∧
      (classify (inQuotes '"' t) = .error .operandRange ↔ t ≠ [] ∧ ∀ cs, ¬t.Latin cs) ∧
      (∀ op, classify (inQuotes '\'' t) = .ok op ↔
        ∃ c, (c.toNat ≤ 255 ∧ t = String.utf8EncodeChar c) ∧
          op = { kind := .number, value := UInt8.ofNat c.toNat }) ∧
      (∃ cs, t.Decodes cs) ∧
      ∀ cs, t.Decodes cs → (classify (inQuotes '\'' t) = .error .characterCount ↔
        t ≠ [] ∧ utf16Length cs ≠ 1)) ∧
    ∀ (asm : Assembler) (bs : List UInt8), bs ≠ [] → '\n'.toUInt8 ∉ bs → '"'.toUInt8 ∉ bs.tail →
      (Text.ofString "DB " ++ inQuotes '"' (ofLatin bs)).length < Source.lineLimit →
      ∃ p, asm.assemble { text := Text.ofString "DB " ++ inQuotes '"' (ofLatin bs) } = .ok p ∧
        p.code = bs ∧ p.mapping = ∅ ∧
        p.records = [⟨0, 0, ["DB", inQuotes '"' (ofLatin bs)], bs, true⟩] := by
  refine ⟨fun t => ⟨fun op => classify_string_iff, fun op h => ?_, classify_string_malformed_iff,
    classify_string_range_iff, fun op => ?_, ⟨t.chars, t.decodes_chars⟩, fun cs hd => ?_⟩,
    fun asm bs hn hl hq hs => ?_⟩
  case refine_1 =>
    obtain ⟨cs, hl, ho⟩ := classify_string_iff.mp h
    exact ho ▸ hl.ofLatin_latinBytes
  case refine_2 => simp only [classify_character_iff, Text.latin_singleton_iff]
  case refine_3 => rw [classify_character_count_iff, hd.chars_eq]
  case refine_4 =>
    have hb : (Literal.ofBytes bs hn hl hq).bytes = bs := Text.latinBytes_map_ofUInt8 bs
    have h := assemble_string asm ⟨"DB", rfl⟩ (.ofBytes bs hn hl hq) hs
    rw [hb] at h
    exact ⟨_, h, rfl, rfl, rfl⟩

-- A quote at the start, a semicolon, a comma, the mark of an expression and a letter in two bytes;
-- then a character in two units, and a byte that starts a character but is alone.
theorem quotes_round_trip_of_marks :
    let bs : List UInt8 := [34, 59, 44, 36, 40, 233]
    let line := Text.ofString "DB " ++ inQuotes '"' (ofLatin bs)
    (bs ≠ [] ∧ '\n'.toUInt8 ∉ bs ∧ '"'.toUInt8 ∉ bs.tail ∧ line.length < Source.lineLimit) ∧
      line = Text.ofString "DB \"\";,$(é\"" ∧
      (∃ p, Assembler.assemble {} { text := line } = .ok p ∧ p.code = bs ∧ p.mapping = ∅) ∧
      Text.Decodes (String.utf8EncodeChar '😀') ['😀'] ∧
      classify (inQuotes '\'' (String.utf8EncodeChar '😀')) = .error .characterCount ∧
      classify (inQuotes '"' [0xC3]) = .error .operandRange := by
  intro bs line
  have hb : bs ≠ [] ∧ '\n'.toUInt8 ∉ bs ∧ '"'.toUInt8 ∉ bs.tail ∧
      line.length < Source.lineLimit := by decide +kernel
  obtain ⟨hq, ha⟩ := quotes_round_trip
  obtain ⟨p, hp, hc, hm, -⟩ := ha {} bs hb.left hb.right.left hb.right.right.left
    hb.right.right.right
  have hd : Text.Decodes (String.utf8EncodeChar '😀') ['😀'] := .char '😀' .nil
  obtain ⟨-, -, -, -, -, -, hcount⟩ := hq (String.utf8EncodeChar '😀')
  obtain ⟨-, -, -, hrange, -⟩ := hq [0xC3]
  refine ⟨hb, by decide +kernel, ⟨p, hp, hc, hm⟩, hd, (hcount _ hd).mpr (by decide), ?_⟩
  refine hrange.mpr ⟨by decide, fun cs hl => ?_⟩
  have hu := (Text.latin_iff.mp hl).right.right
  exact absurd (hu 0xFFFD (by decide +kernel)) (by decide)

end Operand

end ByteAsm
