import CanonicalAccess.Sexp.Reader
import Mathlib.Data.List.Forall2

/-!
# What is read of a laid-out text

A text is cut into pieces. Laying an S-expression out adds nothing to its pieces and takes nothing
away: whatever the width, the depth and the blank characters of a step, the text has the pieces of
the S-expression in order (`tokens_layout`). And the pieces of an S-expression determine it, but for
the words that stand for integers (`bared_eq_of_pieces_eq`).
-/

set_option autoImplicit false

namespace CanonicalAccess.Sexp

/-! ### Texts and their pieces -/

/-- A character that does not go on with a word. -/
def endsWord (c : Char) : Bool := Text.isBlank c || c == '(' || c == ')' || c == '"'

/-- What follows a word: nothing, or a character that ends it. -/
def Delimited (cs : List Char) : Prop := ∀ c ∈ cs.head?, endsWord c = true

/-- What follows a word may be followed by what follows a word. -/
theorem Delimited.append {cs rest : List Char} (h : Delimited cs) (hrest : Delimited rest) :
    Delimited (cs ++ rest) := by
  cases cs with
  | nil => exact hrest
  | cons c cs => exact h

/-- A character that ends words may follow one. -/
theorem delimited_cons {c : Char} {cs : List Char} (h : endsWord c = true) :
    Delimited (c :: cs) := by
  rintro c' hc'
  cases hc'
  exact h

/-- A text has these pieces, whatever it is followed by. -/
def Reads (cs : List Char) (ts : List Token) : Prop :=
  ∀ rest, Delimited rest → tokens .between (cs ++ rest) = (tokens .between rest).map (ts ++ ·)

namespace Reads

variable {cs ds : List Char} {ts us : List Token}

/-- No text, no pieces. -/
theorem nil : Reads [] [] := by
  intro rest _
  simp

/-- Texts one behind the other have their pieces in order if the second one may follow a word. -/
theorem append (h : Reads cs ts) (hds : Delimited ds) (h' : Reads ds us) :
    Reads (cs ++ ds) (ts ++ us) := by
  intro rest hrest
  rw [List.append_assoc, h _ (hds.append hrest), h' rest hrest, Option.map_map]
  simp [Function.comp_def]

/-- A text without characters has no pieces. -/
theorem eq_nil (h : Reads [] ts) : ts = [] := by
  simpa [tokens] using (h [] nofun).symm

/-- A blank is no piece. -/
theorem blank {c : Char} (hc : Text.isBlank c = true) (h : Reads cs ts) : Reads (c :: cs) ts := by
  intro rest hrest
  have hstart : start c = ([], .between) := by simp [start, hc]
  rw [List.cons_append, tokens, hstart, ← h rest hrest]
  simp

/-- Neither are several of them. -/
theorem blanks (hds : ∀ c ∈ ds, Text.isBlank c = true) (h : Reads cs ts) : Reads (ds ++ cs) ts := by
  induction ds with
  | nil => exact h
  | cons c ds ih =>
    rw [List.forall_mem_cons] at hds
    exact blank hds.1 (ih hds.2)

/-- An opening parenthesis is a piece. -/
theorem opening (h : Reads cs ts) : Reads ('(' :: cs) (.opening :: ts) := by
  intro rest hrest
  have hstart : start '(' = ([.opening], .between) := by decide
  rw [List.cons_append, tokens, hstart, h rest hrest, Option.map_map]
  rfl

/-- A closing parenthesis is a piece. -/
theorem closing : Reads [')'] [.closing] := by
  intro rest _
  have hstart : start ')' = ([.closing], .between) := by decide
  rw [List.singleton_append, tokens, hstart]

/-- A word is read up to the character that ends it. -/
theorem tokens_inBare (hcs : ∀ c ∈ cs, endsWord c = false) (done : List Char) {rest : List Char}
    (hrest : Delimited rest) : tokens (.inBare done) (cs ++ rest) =
      (tokens .between rest).map (.bare (done.reverse ++ cs) :: ·) := by
  induction cs generalizing done with
  | nil =>
    rw [List.nil_append, List.append_nil]
    cases rest with
    | nil => rfl
    | cons c rest =>
      have hc : endsWord c = true := hrest c rfl
      unfold endsWord at hc
      simp only [tokens, if_pos hc, Option.map_map]
      rfl
  | cons c cs ih =>
    rw [List.forall_mem_cons] at hcs
    have hc := hcs.1
    unfold endsWord at hc
    rw [List.cons_append, tokens, if_neg (by rw [hc]; exact Bool.false_ne_true), ih hcs.2]
    simp

/-- A word without characters that would end it is one piece. -/
theorem bare (hne : cs ≠ []) (hcs : ∀ c ∈ cs, endsWord c = false) : Reads cs [.bare cs] := by
  intro rest hrest
  cases cs with
  | nil => exact absurd rfl hne
  | cons c cs =>
    rw [List.forall_mem_cons] at hcs
    have hstart : start c = ([], .inBare [c]) := by
      have hc := hcs.1
      simp only [endsWord, Bool.or_eq_false_iff] at hc
      simp [start, hc]
    rw [List.cons_append, tokens, hstart, tokens_inBare hcs.2 _ hrest]
    simp [Function.comp_def]

/-- A quoted text is read back as what was escaped in it. -/
theorem tokens_inQuoted (cs done rest : List Char) :
    tokens (.inQuoted done) (Text.escape Text.spanning cs ++ '"' :: rest) =
      (tokens .between rest).map (.quoted (done.reverse ++ cs) :: ·) := by
  induction cs generalizing done with
  | nil => simp [tokens]
  | cons c cs ih =>
    rw [Text.escape_cons, Text.spanning]
    split
    case isTrue => simp [tokens, ih]
    case isFalse hc =>
      rw [Bool.or_eq_true, not_or, beq_iff_eq, beq_iff_eq] at hc
      simp [tokens, hc.1, hc.2, ih]

/-- Text between quotes is one piece, however many quotes and line breaks are in it. -/
theorem quoted (cs : List Char) :
    Reads (Text.enclose '"' (Text.escape Text.spanning cs)) [.quoted cs] := by
  intro rest _
  have hstart : start '"' = ([], .inQuoted []) := by decide
  rw [Text.enclose, List.cons_append, tokens, hstart, List.append_assoc]
  simpa using tokens_inQuoted cs [] rest

end Reads

/-! ### Layout does not change the pieces -/

section Layout

variable {l : Layout}

/-- A layout whose step of indentation is blank. -/
def Layout.Blank (l : Layout) : Prop := ∀ c ∈ l.step, Text.isBlank c = true

/-- The standard layout is indented by blanks. -/
theorem Layout.blank_standard : Layout.standard.Blank := by
  intro c hc
  have hspace : c = ' ' := by simpa [Layout.standard] using hc
  rw [hspace]
  decide

/-- Where steps are blank, so is all indentation. -/
theorem isBlank_of_mem_indent (hl : l.Blank) {depth : Int} {c : Char} (hc : c ∈ l.indent depth) :
    Text.isBlank c = true := by
  obtain ⟨step, hstep, hc⟩ := List.mem_flatten.mp hc
  rw [List.eq_of_mem_replicate hstep] at hc
  exact hl c hc

/-- A line of texts has their pieces in order. -/
theorem reads_spaced {texts : List (List Char)} {tss : List (List Token)}
    (h : List.Forall₂ Reads texts tss) : Reads (spaced texts) tss.flatten := by
  induction h with
  | nil => exact .nil
  | @cons text ts texts tss htext hrest ih =>
    cases texts with
    | nil =>
      cases hrest
      simpa [spaced] using htext
    | cons next texts =>
      have hblank : Text.isBlank ' ' = true := by decide
      exact htext.append (delimited_cons (by decide)) (ih.blank hblank)

/-- A text set on a line of its own. -/
theorem Reads.onLine {cs : List Char} {ts : List Token} (hl : l.Blank) (depth : Int)
    (h : Reads cs ts) : Reads ('\n' :: (l.indent depth ++ cs)) ts :=
  (h.blanks fun _ hc => isBlank_of_mem_indent hl hc).blank (by decide)

/-- Lines with their depths, each behind a line break. -/
def lineChars (l : Layout) (lines : List (Int × List Char)) : List Char :=
  lines.flatMap fun (depth, cs) => '\n' :: (l.indent depth ++ cs)

/-- Lines are written one behind the other. -/
theorem lineChars_append (lines lines' : List (Int × List Char)) :
    lineChars l (lines ++ lines') = lineChars l lines ++ lineChars l lines' :=
  List.flatMap_append

/-- The lines of a block are a line break, the indentation and the block. -/
theorem lineChars_linesAt (depth : Int) (b : Block) :
    lineChars l (b.linesAt depth) = '\n' :: (l.indent depth ++ b.chars l) := by
  simp [lineChars, Block.linesAt, Block.chars]

/-- Lines may follow a word: they begin with a line break. -/
theorem delimited_lineChars (lines : List (Int × List Char)) : Delimited (lineChars l lines) := by
  cases lines with
  | nil => exact nofun
  | cons line lines => exact delimited_cons (by decide)

variable {parts : List Block} {tss : List (List Token)}

/-- Blocks on lines of their own have their pieces in order. -/
theorem reads_flatMap_linesAt (hl : l.Blank) (depth : Int)
    (h : List.Forall₂ (fun b ts => Reads (b.chars l) ts) parts tss) :
    Reads (lineChars l (parts.flatMap (Block.linesAt depth))) tss.flatten := by
  induction h with
  | nil => exact .nil
  | cons hb _ ih =>
    rw [List.flatMap_cons, lineChars_append, lineChars_linesAt, List.flatten_cons]
    exact (hb.onLine hl depth).append (delimited_lineChars _) ih

/-- So have the elements of a broken form, the hidden one included. -/
theorem reads_elementLines (hl : l.Blank) (depth : Int)
    (h : List.Forall₂ (fun b ts => Reads (b.chars l) ts) parts tss) :
    Reads (lineChars l (elementLines l depth parts)) tss.flatten := by
  unfold elementLines
  split
  case h_1 b =>
    split
    case isTrue hblank =>
      obtain ⟨ts, rest, hb, hrest, rfl⟩ := List.forall₂_cons_left_iff.mp h
      cases hrest
      have hchars : b.chars l = [] := by
        simp only [Block.isBlank, Bool.and_eq_true, List.isEmpty_iff] at hblank
        simp [Block.chars, hblank]
      rw [hchars] at hb
      rw [hb.eq_nil]
      exact .nil
    case isFalse =>
      have hline := reads_flatMap_linesAt hl depth h
      rwa [List.flatMap_singleton] at hline
  case h_2 => exact reads_flatMap_linesAt hl depth h

/-- Blocks are set on a line exactly if each has a single line and the line of them all fits. -/
theorem lineOf?_eq_some_iff {line : List Char} :
    lineOf? l parts = some line ↔ (∀ b ∈ parts, b.tail = []) ∧ l.fits line = true ∧
      parens (spaced (parts.map Block.head)) = line := by
  simp only [lineOf?, Option.ite_none_right_eq_some, List.all_eq_true, List.isEmpty_iff,
    Option.some.injEq]
  refine and_congr_right fun _ => ⟨?_, ?_⟩
  · rintro ⟨hfits, rfl⟩
    exact ⟨hfits, rfl⟩
  · rintro ⟨hfits, rfl⟩
    exact ⟨hfits, rfl⟩

/-- A broken form opens in front of its first block, has the lines of the others, and closes on a
line of its own. -/
theorem chars_broken (depth : Int) (first : Block) (others : List Block) :
    (broken l depth first others).chars l = '(' :: (first.chars l ++
      (lineChars l (elementLines l (depth + 1) others) ++ '\n' :: (l.indent depth ++ [')']))) := by
  simp [broken, Block.chars, lineChars]

/-- A form has the pieces of its elements between parentheses, however it is set. -/
theorem reads_setForm (hl : l.Blank) (depth : Int)
    (h : List.Forall₂ (fun b ts => Reads (b.chars l) ts) parts tss) :
    Reads ((setForm l depth parts).chars l) (.opening :: (tss.flatten ++ [.closing])) := by
  cases h with
  | nil => exact Reads.closing.opening
  | @cons first ts others tss hfirst hothers =>
    rw [setForm]
    cases hline : lineOf? l (first :: others) with
    | some line =>
      obtain ⟨hflat, -, rfl⟩ := lineOf?_eq_some_iff.mp hline
      have hheads : List.Forall₂ Reads ((first :: others).map Block.head) (ts :: tss) := by
        rw [List.forall₂_map_left_iff]
        refine ((List.forall₂_and_left _ _).mpr ⟨hflat, .cons hfirst hothers⟩).imp fun b ts hb => ?_
        simpa [Block.chars, hb.1] using hb.2
      have hline := (reads_spaced hheads).append (delimited_cons (by decide)) Reads.closing
      simpa [Block.chars, Block.single, parens] using hline.opening
    | none =>
      have hclosing := Reads.closing.onLine hl depth
      have hbreak : Delimited ('\n' :: (l.indent depth ++ [')'])) := delimited_cons (by decide)
      have hrest := (reads_elementLines hl (depth + 1) hothers).append hbreak hclosing
      rw [chars_broken, List.flatten_cons, List.append_assoc]
      exact (hfirst.append ((delimited_lineChars _).append hbreak) hrest).opening

end Layout

/-! ### The pieces of an S-expression -/

/-- Induction over S-expressions, elements being given one by one. -/
@[elab_as_elim]
theorem induction {motive : Sexp → Prop} (word : ∀ text, motive (.word text))
    (datum : ∀ value, motive (.datum value))
    (form : ∀ items, (∀ s ∈ items, motive s) → motive (.form items)) (s : Sexp) : motive s := by
  refine @Sexp.rec motive (fun items => ∀ s ∈ items, motive s) word datum form ?_ ?_ s
  · intro s hs
    exact absurd hs List.not_mem_nil
  · intro s items hs hitems
    rw [List.forall_mem_cons]
    exact ⟨hs, hitems⟩

mutual

def pieces : Sexp → List Token
  | word text => [.bare text.toList]
  | datum (.str s) => [.quoted s.toList]
  | datum v => [.bare (datumChars v)]
  | form items => .opening :: (piecesAll items ++ [.closing])
termination_by structural s => s

def piecesAll : List Sexp → List Token
  | [] => []
  | s :: rest => pieces s ++ piecesAll rest
termination_by structural items => items

end

/-- Characters that make a word: there are some, and none of them ends it. -/
def isWord (cs : List Char) : Bool := !cs.isEmpty && cs.all fun c => !endsWord c

mutual

/-- The words of an S-expression are words, and its data texts and integers. -/
def readable : Sexp → Bool
  | word text => isWord text.toList
  | datum v =>
    match v with
    | .str _ | .int _ => true
    | _ => false
  | form items => readableAll items
termination_by structural s => s

def readableAll : List Sexp → Bool
  | [] => true
  | s :: rest => readable s && readableAll rest
termination_by structural items => items

end

/-- A list can be read back exactly if each of its elements can. -/
theorem readableAll_iff {items : List Sexp} :
    readableAll items = true ↔ ∀ s ∈ items, s.readable = true := by
  induction items with
  | nil => simp [readableAll]
  | cons s rest ih => rw [readableAll, Bool.and_eq_true, ih, List.forall_mem_cons]

/-- A word has characters, and none that ends it. -/
theorem isWord_iff {cs : List Char} :
    isWord cs = true ↔ cs ≠ [] ∧ ∀ c ∈ cs, endsWord c = false := by
  simp [isWord]

/-- No digit ends a word. -/
theorem endsWord_of_isDigit {c : Char} (h : c.isDigit = true) : endsWord c = false := by
  simp only [Char.isDigit, Bool.and_eq_true, decide_eq_true_eq] at h
  have hlow : 48 ≤ c.toNat := h.1
  have hhigh : c.toNat ≤ 57 := h.2
  have hblank : Text.isBlank c = false := by
    simp only [Text.isBlank, Text.blankRanges, List.any_cons, List.any_nil]
    simp
    omega
  have hne : ∀ d : Char, d.toNat < 48 → c ≠ d := by
    rintro d hd rfl
    omega
  simp [endsWord, hblank, hne '(' (by decide), hne ')' (by decide), hne '"' (by decide)]

/-- A natural number is written as a word. -/
theorem isWord_toDigits (n : Nat) : isWord (Nat.toDigits 10 n) = true :=
  isWord_iff.mpr ⟨Nat.toDigits_ne_nil, fun _ hc =>
    endsWord_of_isDigit (Nat.isDigit_of_mem_toDigits (by decide) (by decide) hc)⟩

/-- A natural number is written by its digits. -/
theorem toList_toString_ofNat (n : Nat) :
    (toString (Int.ofNat n)).toList = Nat.toDigits 10 n := Nat.toList_repr

/-- A negative number is written by a minus and its digits. -/
theorem toList_toString_negSucc (n : Nat) :
    (toString (Int.negSucc n)).toList = '-' :: Nat.toDigits 10 (n + 1) := by
  show ("-" ++ (n + 1).repr).toList = _
  rw [String.toList_append, Nat.toList_repr]
  rfl

/-- An integer is written as a word. -/
theorem isWord_toString (n : Int) : isWord (toString n).toList = true := by
  cases n with
  | ofNat n =>
    rw [toList_toString_ofNat]
    exact isWord_toDigits n
  | negSucc n =>
    obtain ⟨-, hdigits⟩ := isWord_iff.mp (isWord_toDigits (n + 1))
    rw [toList_toString_negSucc, isWord_iff, List.forall_mem_cons]
    exact ⟨List.cons_ne_nil _ _, by decide, hdigits⟩

/-- A natural number is read back from its digits. -/
theorem natural?_toDigits (n : Nat) : natural? (Nat.toDigits 10 n) = some n := by
  have hdigits : (Nat.toDigits 10 n).all Char.isDigit = true :=
    List.all_eq_true.mpr fun c hc => Nat.isDigit_of_mem_toDigits (by decide) (by decide) hc
  have hne : (Nat.toDigits 10 n).isEmpty = false :=
    List.isEmpty_eq_false_iff.mpr Nat.toDigits_ne_nil
  simp [natural?, hdigits, hne, Nat.ofDigitChars_ten_toDigits]

/-- The text of an integer reads as that integer. -/
theorem integer?_toString (n : Int) : integer? (toString n).toList = some n := by
  cases n with
  | ofNat n =>
    rw [toList_toString_ofNat]
    unfold integer?
    split
    case h_1 cs hcs =>
      have hminus : '-' ∈ Nat.toDigits 10 n := by simp [hcs]
      exact absurd (Nat.isDigit_of_mem_toDigits (by decide) (by decide) hminus) (by decide)
    case h_2 => rw [natural?_toDigits]; rfl
  | negSucc n =>
    rw [toList_toString_negSucc, integer?, natural?_toDigits]
    rfl

/-- The pieces of a list are those of each of its elements. -/
theorem piecesAll_eq_flatten (items : List Sexp) :
    piecesAll items = (items.map pieces).flatten := by
  induction items with
  | nil => rfl
  | cons s rest ih => rw [piecesAll, ih, List.map_cons, List.flatten_cons]

/-- A single line shows its text. -/
theorem chars_single (l : Layout) (cs : List Char) : (Block.single cs).chars l = cs := by
  simp [Block.single, Block.chars]

/-- Whatever the layout, the text of an S-expression has its pieces. -/
theorem reads_block {l : Layout} (hl : l.Blank) {s : Sexp} (h : s.readable = true) (depth : Int) :
    Reads ((block l depth s).chars l) s.pieces := by
  induction s using Sexp.induction generalizing depth with
  | word text =>
    obtain ⟨hne, hcs⟩ := isWord_iff.mp h
    rw [block, chars_single, pieces]
    exact .bare hne hcs
  | datum v =>
    rw [block, chars_single]
    cases v with
    | str s => exact .quoted s.toList
    | int n =>
      obtain ⟨hne, hcs⟩ := isWord_iff.mp (isWord_toString n)
      exact .bare hne hcs
    | _ => cases h
  | form items ih =>
    have hitems : List.Forall₂ (fun b ts => Reads (b.chars l) ts) (blocks l (depth + 1) items)
        (items.map pieces) := by
      have hreadable := readableAll_iff.mp h
      clear h
      induction items with
      | nil => exact .nil
      | cons s rest ihrest =>
        rw [List.forall_mem_cons] at ih hreadable
        exact .cons (ih.1 hreadable.1 (depth + 1)) (ihrest ih.2 hreadable.2)
    rw [block, pieces, piecesAll_eq_flatten]
    exact reads_setForm hl depth hitems

/-- A laid-out text is cut into the pieces of its S-expression. -/
theorem tokens_layout {l : Layout} (hl : l.Blank) {s : Sexp} (h : s.readable = true) (depth : Int) :
    tokens .between (layout l depth s).toList = some s.pieces := by
  have htext := reads_block hl h depth [] nofun
  rw [layout, String.toList_ofList]
  simpa [tokens] using htext

/-! ### An S-expression from its pieces -/

mutual

/-- The S-expression with integers as the words that they look like. -/
def bared : Sexp → Sexp
  | word text => word text
  | datum v =>
    match v with
    | .str s => datum (.str s)
    | v => word (String.ofList (datumChars v))
  | form items => form (baredAll items)
termination_by structural s => s

def baredAll : List Sexp → List Sexp
  | [] => []
  | s :: rest => bared s :: baredAll rest
termination_by structural items => items

end

/-- The word or the text that a piece is, if it is no parenthesis. -/
def Token.atom? : Token → Option Sexp
  | .quoted cs => some (datum (.str (String.ofList cs)))
  | .bare cs => some (word (String.ofList cs))
  | .opening | .closing => none

/-- An S-expression is a single piece, or a form. -/
theorem pieces_cases (s : Sexp) :
    (∃ t, s.pieces = [t] ∧ t.atom? = some s.bared) ∨ ∃ items, s = form items := by
  cases s with
  | word text => exact .inl ⟨_, rfl, by simp [Token.atom?, bared]⟩
  | datum v => cases v <;> exact .inl ⟨_, rfl, by simp [Token.atom?, bared]⟩
  | form items => exact .inr ⟨items, rfl⟩

/-- No S-expression starts with a closing parenthesis. -/
theorem pieces_append_ne_closing (s : Sexp) (ts ts' : List Token) :
    s.pieces ++ ts ≠ .closing :: ts' := by
  rcases pieces_cases s with ⟨t, ht, hatom⟩ | ⟨items, rfl⟩
  · rw [ht]
    rintro h
    cases h
    cases hatom
  · nofun

/-- The pieces of S-expressions in a row, up to a closing parenthesis, determine them. -/
theorem baredAll_eq_of_piecesAll_eq {items : List Sexp}
    (ih : ∀ s ∈ items, ∀ {s' : Sexp} {ts ts' : List Token}, s.pieces ++ ts = s'.pieces ++ ts' →
      s.bared = s'.bared ∧ ts = ts') {items' : List Sexp} {ts ts' : List Token}
    (h : piecesAll items ++ .closing :: ts = piecesAll items' ++ .closing :: ts') :
    baredAll items = baredAll items' ∧ ts = ts' := by
  induction items generalizing items' with
  | nil =>
    cases items' with
    | nil => simpa [piecesAll, baredAll] using h
    | cons s' rest' =>
      rw [piecesAll, piecesAll, List.append_assoc] at h
      exact absurd h.symm (pieces_append_ne_closing _ _ _)
  | cons s rest ihrest =>
    rw [piecesAll, List.append_assoc] at h
    cases items' with
    | nil => exact absurd h (pieces_append_ne_closing _ _ _)
    | cons s' rest' =>
      rw [List.forall_mem_cons] at ih
      rw [piecesAll, List.append_assoc] at h
      obtain ⟨hs, hrest⟩ := ih.1 h
      obtain ⟨hbared, hts⟩ := ihrest ih.2 hrest
      rw [baredAll, baredAll, hs, hbared]
      exact ⟨rfl, hts⟩

/-- What begins with the piece of a word or a text is that word or that text. -/
theorem bared_eq_of_atom {s s' : Sexp} {t : Token} {ts ts' : List Token} (ht : s.pieces = [t])
    (hatom : t.atom? = some s.bared) (h : s.pieces ++ ts = s'.pieces ++ ts') :
    s.bared = s'.bared ∧ ts = ts' := by
  rw [ht] at h
  rcases pieces_cases s' with ⟨t', ht', hatom'⟩ | ⟨items', rfl⟩
  · rw [ht'] at h
    cases h
    exact ⟨Option.some.inj (hatom.symm.trans hatom'), rfl⟩
  · cases h
    cases hatom

/-- The pieces of an S-expression determine it wherever it stands, but for words that look like
integers. -/
theorem bared_eq_of_append_eq {s s' : Sexp} {ts ts' : List Token}
    (h : s.pieces ++ ts = s'.pieces ++ ts') : s.bared = s'.bared ∧ ts = ts' := by
  induction s using Sexp.induction generalizing s' ts ts' with
  | word text =>
    rcases pieces_cases (word text) with ⟨t, ht, hatom⟩ | ⟨items, heq⟩
    · exact bared_eq_of_atom ht hatom h
    · cases heq
  | datum v =>
    rcases pieces_cases (datum v) with ⟨t, ht, hatom⟩ | ⟨items, heq⟩
    · exact bared_eq_of_atom ht hatom h
    · cases heq
  | form items ih =>
    rcases pieces_cases s' with ⟨t, ht, hatom⟩ | ⟨items', rfl⟩
    · rw [ht] at h
      cases h
      cases hatom
    · rw [pieces, pieces, List.cons_append, List.cons_append, List.append_assoc,
        List.append_assoc] at h
      obtain ⟨hitems, hts⟩ := baredAll_eq_of_piecesAll_eq ih (List.cons_injective h)
      rw [bared, bared, hitems]
      exact ⟨rfl, hts⟩

/-- Readable S-expressions whose texts agree, be it in different layouts, differ in nothing but the
words that look like integers. -/
theorem bared_eq_of_layout_eq {l l' : Layout} (hl : l.Blank) (hl' : l'.Blank) {s s' : Sexp}
    (hs : s.readable = true) (hs' : s'.readable = true) {depth depth' : Int}
    (h : layout l depth s = layout l' depth' s') : s.bared = s'.bared := by
  have hpieces : some s.pieces = some s'.pieces := by
    rw [← tokens_layout hl hs depth, ← tokens_layout hl' hs' depth', h]
  have hempty : s.pieces ++ [] = s'.pieces ++ [] := by rw [Option.some.inj hpieces]
  exact (bared_eq_of_append_eq hempty).1

end CanonicalAccess.Sexp
