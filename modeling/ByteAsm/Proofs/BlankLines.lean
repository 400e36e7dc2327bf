import ByteAsm.Proofs.Expanded
import ByteAsm.Proofs.Outcome
import ByteAsm.Proofs.SideBySide

namespace ByteAsm

-- Blanks, then nothing or a comment.
def Line.Neutral (t : Text) : Prop :=
  ∃ blanks rest, Blanks blanks ∧ t = blanks ++ rest ∧ (rest = [] ∨ rest.head? = some ';'.toUInt8)

-- The number of a line once another line stands before line `k`.
def Source.moved (k : Nat) (line : Int) : Int :=
  if k ≤ line then line + 1 else line

def Extent.moved (k : Nat) (e : Extent) : Extent :=
  { e with line := if k ≤ e.line then e.line + 1 else e.line }

def Record.moved (k : Nat) (r : Record) : Record :=
  { r with line := Source.moved k r.line }

def Draft.moved (k : Nat) (d : Draft) : Draft :=
  { d with
    mapping := d.mapping.mapValues (Source.moved k)
    extents := d.extents.map (Extent.moved k) }

def Program.moved (k : Nat) (p : Program) : Program :=
  { p with
    mapping := p.mapping.mapValues (Source.moved k)
    records := p.records.map (Record.moved k) }

def Error.moved (k : Nat) : Error → Error
  | .onLine line text cause => .onLine (Source.moved k line) text cause
  | e => e

theorem Line.read_neutral {t : Text} (h : Neutral t) : read t = .ok ⟨none, none⟩ := by
  have ⟨blanks, rest, hb, ht, hr⟩ := h
  have htail : Tail rest := ⟨[], rest, nofun, rfl, hr⟩
  exact ht ▸ read_of_written (.mk hb .none blanks_nil .none htail)

theorem Layout.line_lt_of_mem_extents {n ip : Nat} {lines : List Line} {e : Extent}
    (h : e ∈ extents n ip lines) : e.line < n + lines.length := by
  induction lines generalizing n ip
  case nil => contradiction
  case cons line lines hi =>
    rw [extents, List.mem_append] at h
    rw [List.length_cons]
    cases h
    case inr h =>
      have := hi h
      omega
    case inl h =>
      simp only [Option.mem_toList, Line.extent?, Option.bind_eq_some_iff,
        Option.map_eq_some_iff] at h
      obtain ⟨_, _, _, _, he⟩ := h
      simp only [←he]
      omega

theorem Layout.line_lt_of_mem_mapping {n ip : Nat} {lines : List Line} {entry : Int × Int}
    (h : entry ∈ mapping n ip lines) : entry.2 < (n + lines.length : Nat) := by
  induction lines generalizing n ip
  case nil => contradiction
  case cons line lines hi =>
    rw [mapping, List.mem_append, Option.mem_toList] at h
    rw [List.length_cons]
    cases h
    case inl h =>
      rw [(of_mapped? h).left]
      omega
    case inr h =>
      have := hi h
      omega

variable {asm : Assembler} {k n : Nat}

theorem Source.moved_of_le (h : k ≤ n) : moved k n = (n + 1 : Nat) := by
  simp [moved, h]

theorem Source.moved_of_lt (h : n < k) : moved k n = n := by
  simp [moved, Nat.not_le_of_lt h]

-- The line that could not be read moves like those before it.
theorem Source.Failure.moved_error (h : k ≤ n) (failure : Failure) :
    failure.error (n + 1) = (failure.error n).moved k := by
  cases failure
  case fault => rfl
  case tooLong => simp only [Failure.error, Error.moved, moved_of_le h]

namespace Draft

variable {d : Draft} {raw : Text} {line : Line}

theorem define_moved (k : Nat) (d : Draft) (label : Text) :
    (d.moved k).define label = (d.define label).map (moved k) := by
  simp only [define, apply_ite (Except.map (moved k))]
  rfl

theorem place_moved (h : k ≤ n) (d : Draft) (words : List Text) (s : Statement) :
    (d.moved k).place (n + 1) words s = (d.place n words s).moved k := by
  rw [place_eq, place_eq]
  simp only [moved, Array.map_push, Extent.moved, if_pos h]
  cases s.isData
  case true => rfl
  case false => simp [Table.mapValues_insert, Source.moved_of_le h]

theorem add_moved (h : k ≤ n) (d : Draft) (line : Line) :
    (d.moved k).add (n + 1) line = (d.add n line).map (moved k) := by
  have hd : (d.moved k).defineAny line.label = (d.defineAny line.label).map (moved k) := by
    cases line.label
    case none => rfl
    case some label => exact define_moved k d label
  have hp (d : Draft) : (d.moved k).placeAny (n + 1) line.command =
      (d.placeAny n line.command).map (moved k) := by
    cases line.command
    case none => rfl
    case some c =>
      simp only [placeAny]
      cases c.statement
      case error => rfl
      case ok s => exact congrArg Except.ok (place_moved h d c.words s)
  rw [add, add, hd]
  cases d.defineAny line.label
  case error => rfl
  case ok d => exact hp d

theorem addRaw_moved (hr : ¬Expansion.hasMark (Source.content raw)) (h : k ≤ n) :
    Alike (fun e e' => e' = e.moved k) (fun d d' => d' = d.moved k)
      (addRaw asm n raw d) (addRaw asm (n + 1) raw (d.moved k)) := by
  rw [addRaw_of_not_hasMark hr, addRaw_of_not_hasMark hr]
  split
  case isTrue => exact .error (by rw [Error.moved, Source.moved_of_le h])
  case isFalse =>
    have ha : Alike Eq (fun d d' => d' = d.moved k) (Line.read (Source.content raw) >>= d.add n)
        (Line.read (Source.content raw) >>= (d.moved k).add (n + 1)) := by
      cases Line.read (Source.content raw)
      case error => exact .error rfl
      case ok line => exact .of_eq_map (add_moved h d line)
    exact ha.mapError fun e e' he => by rw [he, Error.moved, Source.moved_of_le h]

theorem addLines_moved (asm : Assembler) (k : Nat) {raws : List Text}
    (hr : ∀ raw ∈ raws, ¬Expansion.hasMark (Source.content raw)) (d : Draft) :
    Alike (fun e e' => e' = e.moved k) (fun d d' => d' = d.moved k)
      (addLines asm k raws d) (addLines asm (k + 1) raws (d.moved k)) := by
  refine addLines_alike k 1 ?_ (Nat.le_refl k) rfl
  refine List.forall₂_same.mpr fun raw hm n d d' hn hd => ?_
  exact hd ▸ addRaw_moved (hr raw hm) hn

theorem addRaw_neutral (hl : raw.length < Source.lineLimit) (hn : Line.Neutral raw)
    (asm : Assembler) (n : Nat) (d : Draft) : addRaw asm n raw d = .ok d := by
  simp only [addRaw, if_neg (Nat.not_le_of_lt hl), addLine_eq,
    Line.readIn_content (Line.read_neutral hn)]
  rfl

-- The lines above keep their numbers, so what they leave in a draft stays as it is.
theorem Run.moved_eq {above : List Text} {lines : List Line} (r : Run asm 0 above lines {} d) :
    d.moved above.length = d := by
  have e := r.extends .empty
  have hx : d.extents.toList = Layout.extents 0 0 lines := by simpa using e.extents
  have he : d.extents.map (Extent.moved above.length) = d.extents := by
    refine (Array.map_congr_left fun e hm => ?_).trans (Array.map_id d.extents)
    have hlt := Layout.line_lt_of_mem_extents (hx ▸ Array.mem_toList_iff.mpr hm)
    rw [r.length_eq, Nat.zero_add] at hlt
    simp [Extent.moved, Nat.not_le_of_lt hlt]
  have hm : d.mapping.mapValues (Source.moved above.length) = d.mapping := by
    rw [Table.mk.injEq, Table.entries_mapValues]
    refine (List.map_congr_left fun entry hm => ?_).trans (List.map_id d.mapping.entries)
    have hlt := Layout.line_lt_of_mem_mapping (e.mapping ▸ hm)
    rw [r.length_eq, Nat.zero_add] at hlt
    simp [Source.moved, Int.not_le_of_gt hlt]
  rw [moved, he, hm]

theorem Rejects.lt_length {raws : List Text} {i : Nat} {text : Text} {e : Error}
    (h : Rejects asm raws i text e) : i < raws.length := by
  cases h <;> simp

theorem addLines_insert (asm : Assembler) (above : List Text) {below : List Text}
    (hm : ∀ raw ∈ below, ¬Expansion.hasMark (Source.content raw))
    (hl : raw.length < Source.lineLimit) (hn : Line.Neutral raw) :
    Alike (fun e e' => e' = e.moved above.length) (fun d d' => d' = d.moved above.length)
      (addLines asm 0 (above ++ below) {}) (addLines asm 0 (above ++ raw :: below) {}) := by
  rw [addLines_append, addLines_append]
  cases ha : addLines asm 0 above {}
  case error e =>
    have ⟨i, text, cause, he, hr⟩ := Run.rejects_of_error .refl ha
    have hlt : i < above.length := hr.lt_length
    exact .error (by rw [he, Error.moved, Source.moved_of_lt hlt])
  case ok d =>
    have ⟨lines, r⟩ := Run.of_addLines_eq_ok ha
    have h := addLines_moved asm above.length hm d
    rw [r.moved_eq] at h
    have hraw : addLines asm above.length (raw :: below) d =
        addLines asm (above.length + 1) below d := by
      rw [addLines_cons, addRaw_neutral hl hn]
      rfl
    simpa only [bind, Except.bind, Nat.zero_add, hraw] using h

theorem record_moved (k : Nat) (code : Array UInt8) (e : Extent) :
    record code (e.moved k) = (record code e).moved k := by
  simp only [record, Extent.moved, Record.moved, Source.moved, Int.ofNat_le]
  split <;> rfl

theorem link_moved (k : Nat) (d : Draft) :
    Alike (fun e e' => e' = e.moved k) (fun p p' => p' = p.moved k) d.link (d.moved k).link := by
  have hr (code : Array UInt8) : (d.moved k).extents.toList.map (record code) =
      (d.extents.toList.map (record code)).map (Record.moved k) := by
    simp [moved, record_moved]
  have hl : (d.moved k).link = d.link.map (Program.moved k) := by
    simp only [link, hr]
    show (patch d.labels d.relocations.toList d.code).map _ = _
    cases patch d.labels d.relocations.toList d.code <;> rfl
  rw [hl]
  cases he : d.link
  case ok => exact .ok rfl
  case error e =>
    obtain ⟨name, he⟩ := link_eq_error he
    refine .error ?_
    cases he <;> subst e <;> rfl

end Draft

namespace Assembler

-- A line that says nothing, before line `k` of a source without expressions.
theorem assemble_insert_neutral (asm : Assembler) (source source' : Source) (k : Nat) (line : Text)
    (hm : ¬Expansion.hasMark source.text) (hk : k ≤ (Source.lines source.text).length)
    (hl : line.length < Source.lineLimit) (hn : Line.Neutral line)
    (hs : Source.lines source'.text =
      (Source.lines source.text).take k ++ line :: (Source.lines source.text).drop k)
    (hf : source'.failure = source.failure) :
    (∀ p, asm.assemble source = .ok p → ∃ p', asm.assemble source' = .ok p' ∧
      p'.code = p.code ∧ p'.labels = p.labels ∧ p'.records = p.records.map (Record.moved k) ∧
      p'.mapping.entries = p.mapping.entries.map fun entry => (entry.1, Source.moved k entry.2)) ∧
    ∀ e, asm.assemble source = .error e → asm.assemble source' = .error (e.moved k) := by
  have h : Alike (fun e e' => e' = e.moved k) (fun p p' => p' = p.moved k)
      (asm.assemble source) (asm.assemble source') := by
    have hlen : (Source.lines source'.text).length = (Source.lines source.text).length + 1 := by
      rw [hs, List.length_append, List.length_cons, List.length_take_of_le hk, List.length_drop]
      omega
    refine assemble_alike (R := fun d d' => d' = d.moved k) ?_ hf
      (fun failure => hlen ▸ failure.moved_error hk) fun d d' hd => ?_
    case refine_1 =>
      have hbelow : ∀ raw ∈ (Source.lines source.text).drop k,
          ¬Expansion.hasMark (Source.content raw) :=
        fun raw hr => Source.not_hasMark_content hm (List.mem_of_mem_drop hr)
      have h := Draft.addLines_insert asm ((Source.lines source.text).take k) hbelow hl hn
      rwa [List.take_append_drop, List.length_take_of_le hk, ←hs] at h
    case refine_2 => exact hd ▸ d.link_moved k
  refine ⟨fun p hp => ?_, fun e he => ?_⟩
  case refine_1 =>
    have ⟨p', hp', hm⟩ := (hp ▸ h).of_ok
    exact ⟨p', hp', hm ▸ rfl, hm ▸ rfl, hm ▸ rfl, hm ▸ p.mapping.entries_mapValues _⟩
  case refine_2 =>
    have ⟨e', he', hm⟩ := (he ▸ h).of_error
    exact hm ▸ he'

-- A comment with a mark and a quote, between a label and a reference to it.
theorem assemble_insert_neutral_of_comment :
    let source : Source := { text := Text.ofString "x: MOV A, y\nJMP x\ny: HLT" }
    let source' : Source := { text := Text.ofString "x: MOV A, y\n\t ; $(\"\r\nJMP x\ny: HLT\n" }
    ∃ p p', assemble {} source = .ok p ∧ assemble {} source' = .ok p' ∧
      p.code = [6, 0, 5, 31, 0, 0] ∧ p'.code = p.code ∧ p'.labels = p.labels ∧
      p.mapping.entries = [(0, 0), (3, 1), (5, 2)] ∧
      p'.mapping.entries = [(0, 0), (3, 2), (5, 3)] := by
  intro source source'
  have h : (assemble {} source).toOption.map (fun p => (p.code, p.mapping.entries)) =
      some ([6, 0, 5, 31, 0, 0], [(0, 0), (3, 1), (5, 2)]) := by
    decide +kernel
  have hn : Line.Neutral (Text.ofString "\t ; $(\"\r") :=
    ⟨Text.ofString "\t ", Text.ofString "; $(\"\r", List.all_eq_true.mp (by decide), rfl, .inr rfl⟩
  cases ha : assemble {} source
  case error => simp [ha, Except.toOption] at h
  case ok p =>
    simp only [ha, Except.toOption, Option.map_some, Option.some.injEq, Prod.mk.injEq] at h
    obtain ⟨hok, _⟩ := assemble_insert_neutral {} source source' 1 (Text.ofString "\t ; $(\"\r")
      (by decide +kernel) (by decide +kernel) (by decide +kernel) hn (by decide +kernel) rfl
    obtain ⟨p', hp', hc, hl, _, hm⟩ := hok p ha
    rw [h.right] at hm
    exact ⟨p, p', rfl, hp', h.left, hc, hl, h.right, hm⟩

end Assembler

end ByteAsm
