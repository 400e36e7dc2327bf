import ByteAsm.Proofs.DirectEncoding
import ByteAsm.Proofs.LabelTable
import ByteAsm.Proofs.ListingLines
import ByteAsm.Proofs.Rendering
import ByteAsm.Proofs.SortedEntries

namespace ByteAsm

-- A line feed stands at the end and nowhere else.
def Text.IsLine (t : Text) : Prop :=
  ∃ body, t = body ++ ['\n'.toUInt8] ∧ '\n'.toUInt8 ∉ body

-- The lines are what they were before they were put together.
theorem Source.lines_flatten {ts : List Text} (h : ∀ t ∈ ts, t.IsLine) :
    (lines ts.flatten).map (· ++ ['\n'.toUInt8]) = ts := by
  induction ts
  case nil => rfl
  case cons t ts hi =>
    obtain ⟨⟨body, ht, hb⟩, h⟩ := List.forall_mem_cons.mp h
    rw [List.flatten_cons, ht, List.append_assoc, List.singleton_append, lines_append_newline hb,
      List.map_cons, hi h]

namespace Line

variable {t w : Text} {line : Line} {c : Command} {b : UInt8}

-- Words are parts of the text that they are read from.
theorem OperandsWritten.mem_of_mem {ops : List Text} (h : OperandsWritten ops t) (hw : w ∈ ops)
    (hb : b ∈ w) : b ∈ t := by
  cases h
  case none => contradiction
  case one => exact List.mem_append_right _ (List.mem_singleton.mp hw ▸ hb)
  case two =>
    simp only [List.mem_cons, List.not_mem_nil, or_false] at hw
    rcases hw with rfl | rfl <;> simp [hb]

theorem Written.mem_of_mem_words (h : Written t line) (hc : line.command = some c)
    (hw : w ∈ c.words) (hb : b ∈ w) : b ∈ t := by
  cases h
  case mk hcommand _ =>
    subst hc
    cases hcommand
    case some m o _ _ ho =>
      have hmo : b ∈ m ++ o := by
        cases List.mem_cons.mp hw
        case inl he =>
          subst he
          exact List.mem_append_left _ hb
        case inr hw => exact List.mem_append_right _ (ho.mem_of_mem hw hb)
      simp only [List.mem_append] at hmo ⊢
      exact .inr (.inr (.inr (.inl hmo)))

end Line

theorem Draft.Run.newline_not_mem_words {asm : Assembler} {d d' : Draft} {n : Nat}
    {raws : List Text} {lines : List Line} (r : Run asm n raws lines d d')
    (hn : ∀ raw ∈ raws, '\n'.toUInt8 ∉ raw) :
    ∀ line ∈ lines, ∀ c, line.command = some c → ∀ w ∈ c.words, '\n'.toUInt8 ∉ w := by
  intro line hl c hc w hw hb
  obtain ⟨texts, _, hr, ht⟩ := r.expandLines_eq_ok hn
  have hm : .ok line ∈ texts.map Line.read := hr ▸ List.mem_map_of_mem hl
  obtain ⟨text, hm, hread⟩ := List.mem_map.mp hm
  exact ht text hm ((Line.written_of_read hread).mem_of_mem_words hc hw hb)

namespace Record

variable {r : Record}

theorem newline_not_mem_description (r : Record) : '\n'.toUInt8 ∉ r.description := by
  unfold description
  split
  case h_2 => decide
  case h_1 enc he =>
    have hn : InstructionSet.encodings.any (·.render.contains '\n'.toUInt8) = false := by
      decide +kernel
    unfold encoding? at he
    split at he
    case isTrue => cases he
    case isFalse =>
      obtain ⟨opcode, _, hl⟩ := Option.bind_eq_some_iff.mp he
      have hm := List.any_eq_false.mp hn enc (List.mem_of_find?_eq_some hl)
      simpa using hm

theorem newline_not_mem_source (h : ∀ w ∈ r.words, '\n'.toUInt8 ∉ w) : '\n'.toUInt8 ∉ r.source := by
  unfold source
  split
  case h_1 => exact List.not_mem_nil
  case h_2 m hw => exact h m (hw ▸ List.mem_cons_self)
  case h_3 m ops _ hw =>
    obtain ⟨hm, ho⟩ := List.forall_mem_cons.mp (hw ▸ h)
    refine List.not_mem_append hm (List.not_mem_cons_of_ne_of_not_mem (by decide) ?_)
    exact Command.newline_not_mem_join (by decide) ho

theorem newline_not_mem_pairs (bytes : List UInt8) : '\n'.toUInt8 ∉ pairs bytes := by
  refine Command.newline_not_mem_join (by decide) fun t ht => ?_
  obtain ⟨b, _, rfl⟩ := List.mem_map.mp ht
  exact Numeral.not_mem_hex (by decide) b.toNat

theorem newline_not_mem_blanks (k : Nat) : '\n'.toUInt8 ∉ List.replicate k ' '.toUInt8 :=
  fun h => absurd (List.eq_of_mem_replicate h) (by decide)

theorem newline_not_mem_remainder (h : ∀ w ∈ r.words, '\n'.toUInt8 ∉ w) :
    '\n'.toUInt8 ∉ r.remainder := by
  have hd (n : Int) : '\n'.toUInt8 ∉ Numeral.decimal n :=
    fun h => absurd (Numeral.isNumeric_of_mem_decimal h) (by decide)
  have hs : '\n'.toUInt8 ∉ Text.ofString "  " := by decide
  have hc : '\n'.toUInt8 ∉ Text.ofString " ; " := by decide
  simp only [remainder, Text.padStart, Text.padEnd, List.mem_append, not_or]
  have hsource := newline_not_mem_source h
  exact ⟨newline_not_mem_blanks _, ⟨⟨⟨⟨newline_not_mem_blanks _, hd _⟩, hs⟩, hsource,
    newline_not_mem_blanks _⟩, hc⟩, r.newline_not_mem_description⟩

theorem isLine_listing (hi : 0 ≤ r.ip) (h : ∀ w ∈ r.words, '\n'.toUInt8 ∉ w) :
    r.listing.IsLine := by
  refine ⟨_, r.listing_eq, ?_⟩
  have hh : '\n'.toUInt8 ∉ Numeral.hex r.ip :=
    Int.toNat_of_nonneg hi ▸ Numeral.not_mem_hex (by decide) _
  have hb : '\n'.toUInt8 ≠ ' '.toUInt8 := by decide
  simp only [List.mem_append, List.mem_cons, not_or]
  exact ⟨hh, hb, hb, newline_not_mem_pairs _, hb, newline_not_mem_remainder h⟩

end Record

theorem isLine_labelListing {entry : Text × Int} (hl : Word.isLabel entry.1) (ho : 0 ≤ entry.2) :
    (labelListing entry).IsLine := by
  refine ⟨_, labelListing_eq entry, ?_⟩
  have hh : '\n'.toUInt8 ∉ Numeral.hex entry.2 :=
    Int.toNat_of_nonneg ho ▸ Numeral.not_mem_hex (by decide) _
  have hb : '\n'.toUInt8 ≠ ' '.toUInt8 := by decide
  simp only [List.mem_append, List.mem_cons, not_or]
  exact ⟨hh, hb, hb, Word.not_mem_of_isLabel hl (by decide) (by decide)⟩

-- What can be read off one image under `f` can be read off all of them.
theorem map_eq_of_map_eq {α β γ : Type} {f : α → β} {g : α → γ} {xs ys : List α}
    (hg : ∀ x ∈ xs, ∀ y ∈ ys, f x = f y → g x = g y) (h : xs.map f = ys.map f) :
    xs.map g = ys.map g := by
  induction xs generalizing ys
  case nil => rw [List.map_eq_nil_iff.mp h.symm]
  case cons x xs hi =>
    cases ys
    case nil => cases h
    case cons y ys =>
      obtain ⟨hxy, h⟩ := List.cons.inj h
      rw [List.map_cons, List.map_cons, hg x List.mem_cons_self y List.mem_cons_self hxy,
        hi (fun x hx y hy => hg x (List.mem_cons_of_mem _ hx) y (List.mem_cons_of_mem _ hy)) h]

namespace Program

variable {p q : Program}

-- What holds of assembled programs that their listings rely on.
structure Printable (p : Program) : Prop where
  code   : p.records.flatMap Record.bytes = p.code
  ip     : ∀ r ∈ p.records, 0 ≤ r.ip
  bytes  : ∀ r ∈ p.records, r.bytes ≠ []
  words  : ∀ r ∈ p.records, ∀ w ∈ r.words, '\n'.toUInt8 ∉ w
  name   : ∀ entry ∈ p.labels.entries, Word.isLabel entry.1
  offset : ∀ entry ∈ p.labels.entries, 0 ≤ entry.2

theorem printable_of_assemble {asm : Assembler} {source : Source}
    (h : asm.assemble source = .ok p) : p.Printable := by
  obtain ⟨lines, d, run, _, _, rfl⟩ := Assembler.assemble_eq_ok_iff.mp h
  have hw := run.newline_not_mem_words fun _ => Source.newline_not_mem_of_mem_lines
  have hr := Layout.program_records d.labels lines
  constructor
  case code => rw [hr, Layout.bytes_records]; rfl
  case ip =>
    intro r hm
    exact (Layout.le_of_mem_records (hr ▸ hm)).right
  case bytes =>
    intro r hm
    obtain ⟨_, _, _, s, _, _, hf, _, _, hb, _⟩ := run.mem_records (hr ▸ hm)
    rw [hb]
    exact fun he => hf.slots_ne_nil (List.map_eq_nil_iff.mp he)
  case words =>
    intro r hm
    obtain ⟨_, line, c, _, hl, hc, _, _, he, _⟩ := run.mem_records (hr ▸ hm)
    exact he ▸ hw line (List.mem_of_getElem? hl) c hc
  case name => exact (run.namesFree Draft.namesFree_empty).spelled
  case offset => exact fun entry hm => run.offset_nonneg (Table.find?_eq_some_iff.mpr hm)

theorem mem_sortedByValue {entry : Text × Int} :
    entry ∈ p.labels.sortedByValue ↔ entry ∈ p.labels.entries :=
  (List.mergeSort_perm _ _).mem_iff

-- Lines of records have more blanks than lines of labels.
def isRecordLine (t : Text) : Bool :=
  2 < t.count ' '.toUInt8

namespace Printable

theorem isLine (h : p.Printable) : ∀ t ∈ p.listing, t.IsLine := by
  intro t ht
  cases List.mem_append.mp ht
  case inl ht =>
    obtain ⟨r, hm, rfl⟩ := List.mem_map.mp ht
    exact Record.isLine_listing (h.ip r hm) (h.words r hm)
  case inr ht =>
    obtain ⟨entry, hm, rfl⟩ := List.mem_map.mp ht
    have hm := mem_sortedByValue.mp hm
    exact isLine_labelListing (h.name entry hm) (h.offset entry hm)

theorem isRecordLine_label (h : p.Printable) {t : Text}
    (ht : t ∈ p.labels.sortedByValue.map labelListing) : isRecordLine t = false := by
  obtain ⟨entry, hm, rfl⟩ := List.mem_map.mp ht
  have hm := mem_sortedByValue.mp hm
  simp [isRecordLine, count_labelListing (h.name entry hm) (h.offset entry hm)]

theorem isRecordLine_record {t : Text} (ht : t ∈ p.records.map Record.listing) :
    isRecordLine t = true := by
  obtain ⟨r, _, rfl⟩ := List.mem_map.mp ht
  exact decide_eq_true r.lt_count_listing

theorem filter_records (h : p.Printable) :
    p.listing.filter isRecordLine = p.records.map Record.listing := by
  rw [listing, List.filter_append, List.filter_eq_self.mpr fun _ => isRecordLine_record,
    List.filter_eq_nil_iff.mpr fun t ht => by simp [h.isRecordLine_label ht], List.append_nil]

theorem filter_labels (h : p.Printable) :
    p.listing.filter (!isRecordLine ·) = p.labels.sortedByValue.map labelListing := by
  rw [listing, List.filter_append, List.filter_eq_nil_iff.mpr fun t ht => by
      simp [isRecordLine_record ht],
    List.filter_eq_self.mpr fun t ht => by simp [h.isRecordLine_label ht], List.nil_append]

theorem code_eq (hp : p.Printable) (hq : q.Printable) (h : p.listing = q.listing) :
    p.code = q.code := by
  have hl : p.records.map Record.listing = q.records.map Record.listing := by
    rw [←hp.filter_records, h, hq.filter_records]
  have hb := map_eq_of_map_eq (fun r hr r' hr' => Record.bytes_of_listing_eq (hp.ip r hr)
    (hq.ip r' hr') (hp.bytes r hr) (hq.bytes r' hr')) hl
  rw [←hp.code, ←hq.code, List.flatMap_def, List.flatMap_def, hb]

theorem find?_eq (hp : p.Printable) (hq : q.Printable) (h : p.listing = q.listing) (name : Text) :
    p.labels.find? name = q.labels.find? name := by
  have hl : p.labels.sortedByValue.map labelListing = q.labels.sortedByValue.map labelListing := by
    rw [←hp.filter_labels, h, hq.filter_labels]
  have hs : p.labels.sortedByValue.map id = q.labels.sortedByValue.map id :=
    map_eq_of_map_eq (fun x hx y hy => labelListing_inj (hp.offset x (mem_sortedByValue.mp hx))
      (hq.offset y (mem_sortedByValue.mp hy))) hl
  rw [List.map_id, List.map_id] at hs
  have hperm : p.labels.sortedByValue.Perm p.labels.entries := List.mergeSort_perm _ _
  exact Table.find?_of_perm (hperm.symm.trans (hs ▸ List.mergeSort_perm _ _)) name

theorem lines_flatten (h : p.Printable) :
    (Source.lines p.listing.flatten).map (· ++ ['\n'.toUInt8]) = p.listing :=
  Source.lines_flatten h.isLine

end Printable

end Program

-- A writer that takes some more writes, and what it has got so far.
structure Writer where
  left    : Nat
  written : Text

namespace Writer

def write? (w : Writer) (t : Text) : Option Writer :=
  match w.left with
  | 0 => none
  | left + 1 => some ⟨left, w.written ++ t⟩

-- Stops at the first write that fails, and tells whether there was none.
def writeAll (w : Writer) : List Text → Writer × Bool
  | [] => (w, true)
  | t :: ts =>
    match w.write? t with
    | none => (w, false)
    | some w => w.writeAll ts

theorem writeAll_eq (w : Writer) (ts : List Text) :
    w.writeAll ts = (⟨w.left - ts.length, w.written ++ (ts.take w.left).flatten⟩,
      decide (ts.length ≤ w.left)) := by
  induction ts generalizing w
  case nil => simp [writeAll]
  case cons t ts hi =>
    obtain ⟨left, written⟩ := w
    cases left
    case zero => simp [writeAll, write?]
    case succ left =>
      change writeAll ⟨left, written ++ t⟩ ts = _
      rw [hi]
      simp

theorem writeAll_append (w : Writer) (ss ts : List Text) :
    w.writeAll (ss ++ ts) =
      if (w.writeAll ss).2 then (w.writeAll ss).1.writeAll ts else ((w.writeAll ss).1, false) := by
  induction ss generalizing w
  case nil => rfl
  case cons s ss hi =>
    rw [List.cons_append, writeAll, writeAll]
    cases w.write? s
    case none => rfl
    case some w => exact hi w

end Writer

namespace Program

-- The records and, if no write has failed, the labels in their order.
def print (p : Program) (w : Writer) : Writer × Bool :=
  let (w, done) := w.writeAll (p.records.map Record.listing)
  if done then w.writeAll (p.labels.sortedByValue.map labelListing) else (w, false)

theorem print_eq_writeAll (p : Program) (w : Writer) : p.print w = w.writeAll p.listing :=
  (w.writeAll_append _ _).symm

theorem print_eq_writeListing (p : Program) (k : Nat) :
    ((p.print ⟨k, []⟩).1.written, (p.print ⟨k, []⟩).2) = p.writeListing (some k) := by
  rw [print_eq_writeAll, Writer.writeAll_eq]
  rfl

theorem length_listing (p : Program) : p.listing.length = p.records.length + p.labels.size := by
  rw [listing, List.length_append, List.length_map, List.length_map, Table.sortedByValue,
    List.length_mergeSort, Table.size]

end Program

namespace Assembler

-- Tables that give the same offset to each name are equal as maps: a listing does not show in which
-- order the labels were defined.
theorem listing_determines_program (asm asm' : Assembler) (source source' : Source)
    (p q : Program) (hp : asm.assemble source = .ok p) (hq : asm'.assemble source' = .ok q) :
    ((p.writeListing none).1 = (q.writeListing none).1 →
      p.code = q.code ∧ ∀ name, p.labels.find? name = q.labels.find? name) ∧
    ∀ k, ((p.print ⟨k, []⟩).1.written, (p.print ⟨k, []⟩).2) = p.writeListing (some k) ∧
      (p.writeListing (some k)).1 =
        ((Source.lines (p.writeListing none).1).take k).flatMap (· ++ ['\n'.toUInt8]) ∧
      ((p.writeListing (some k)).2 = false ↔ k < p.records.length + p.labels.size) := by
  have hp := Program.printable_of_assemble hp
  have hq := Program.printable_of_assemble hq
  refine ⟨fun h => ?_, fun k => ⟨p.print_eq_writeListing k, ?_, ?_⟩⟩
  case refine_1 =>
    have h : p.listing.flatten = q.listing.flatten := h
    have h : p.listing = q.listing := by rw [←hp.lines_flatten, h, hq.lines_flatten]
    exact ⟨hp.code_eq hq h, hp.find?_eq hq h⟩
  case refine_2 =>
    change (p.listing.take k).flatten = ((Source.lines p.listing.flatten).take k).flatMap _
    rw [List.flatMap_def, List.map_take, hp.lines_flatten]
  case refine_3 =>
    rw [←p.length_listing]
    simp [Program.writeListing]

-- The labels have one offset and are defined in either order, and the bytes overrun their column.
theorem listing_determines_program_of_labels :
    let source : Source := { text := Text.ofString "text:\nhere: DB \"ABCD\"\n" }
    let source' : Source := { text := Text.ofString "here:\ntext: DB \"ABCD\"\n" }
    ∃ p q, assemble {} source = .ok p ∧ assemble {} source' = .ok q ∧
      p.labels.entries ≠ q.labels.entries ∧ (p.writeListing none).1 = (q.writeListing none).1 ∧
      p.code = q.code ∧ (∀ name, p.labels.find? name = q.labels.find? name) ∧
      (p.writeListing (some 2)).2 = false := by
  intro source source'
  have h : (assemble {} source).toOption.bind (fun p => (assemble {} source').toOption.map
      fun q => decide (p.labels.entries ≠ q.labels.entries ∧
        q.labels.entries.Perm p.labels.entries ∧ p.records = q.records ∧
        2 < p.records.length + p.labels.size)) = some true := by
    decide +kernel
  cases ha : assemble {} source
  case error => simp [ha, Except.toOption] at h
  case ok p =>
    cases hb : assemble {} source'
    case error => simp [ha, hb, Except.toOption] at h
    case ok q =>
      simp only [ha, hb, Except.toOption, Option.bind_some, Option.map_some, Option.some.injEq,
        decide_eq_true_eq] at h
      obtain ⟨hne, hperm, hr, hk⟩ := h
      obtain ⟨hinj, hwrite⟩ := listing_determines_program {} {} source source' p q ha hb
      -- Sorting leaves nothing of the order in which the labels were defined.
      have hs : p.labels.sortedByValue = q.labels.sortedByValue :=
        (p.labels.arranges_sortedByValue.congr (Table.find?_of_perm hperm)).unique
          q.labels.arranges_sortedByValue Table.ByValue.asymm
      have hl : (p.writeListing none).1 = (q.writeListing none).1 := by
        simp only [Program.writeListing, Program.listing, hr, hs]
      obtain ⟨hc, hf⟩ := hinj hl
      exact ⟨p, q, rfl, rfl, hne, hl, hc, hf, (hwrite 2).right.right.mpr hk⟩

end Assembler

end ByteAsm
