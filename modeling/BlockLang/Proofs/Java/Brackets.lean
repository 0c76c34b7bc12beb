import BlockLang.Java.Program
import BlockLang.Proofs.Java.Words

/-!
# Brackets and literals of Java texts

A reader goes through a Java text from left to right.  It knows the brackets that are open and whether it stands in a
literal, and it gives up where Java would: at a bracket that closes another one than the innermost, at a line break in
a literal, at an escape sequence that does not exist.  A text is balanced if the reader gets through it, whatever is
open before, and leaves just that open.

Literals are balanced because what would end them is escaped, names and numbers because they are words; everything else
that is printed opens and closes its brackets itself.

## Main definitions

- `Reading`, `follow`: the reader.
- `Leads`: how the open brackets change along a text.
- `Balanced`: texts that change nothing.

## Main statements

- `not_inLiteral_of_follow`: where the reader has passed a line break it was in no literal.
- `balanced_literal`, `balanced_expression`, `balanced_statement`: what is printed is balanced.
-/

namespace BlockLang.Java

/-! ## §1 The reader -/

/-- Where in a Java text the reader stands. -/
inductive Place where
  /-- Outside of literals. -/
  | code
  /-- Behind a slash outside of literals, which could begin a comment. -/
  | slash
  | string
  | stringEscape
  /-- Behind the first quote of a character. -/
  | character
  | characterEscape
  /-- Before the second quote of a character. -/
  | characterEnd
deriving DecidableEq, Repr

/-- Whether a literal has been begun but not ended. -/
def Place.inLiteral : Place → Bool
  | code | slash => false
  | string | stringEscape | character | characterEscape | characterEnd => true

/-- What the reader knows. -/
structure Reading where
  place : Place
  /-- The brackets that are open, the innermost first. -/
  brackets : List Char
deriving DecidableEq, Repr

/-- Nothing has been read. -/
def Reading.start : Reading := ⟨.code, []⟩

/-- The brackets, each with the one that closes it. -/
def bracketPairs : List (Char × Char) :=
  [('(', ')'), ('[', ']'), ('\x7b', '\x7d')]

/-- The characters that Java allows behind a backslash in a literal, but for octal digits. -/
def isJavaEscape (c : Char) : Bool :=
  c ∈ ['b', 's', 't', 'n', 'f', 'r', '"', '\'', '\\']

/-- One character outside of literals.  A bracket that closes must close the innermost one; a backslash cannot stand
there. -/
def advanceCode (brackets : List Char) (c : Char) : Option Reading :=
  if c = '"' then some ⟨.string, brackets⟩
  else if c = '\'' then some ⟨.character, brackets⟩
  else if c = '/' then some ⟨.slash, brackets⟩
  else if c = '\\' then none
  else if c ∈ bracketPairs.map Prod.fst then some ⟨.code, c :: brackets⟩
  else if c ∈ bracketPairs.map Prod.snd then
    match brackets with
    | innermost :: outer => if (innermost, c) ∈ bracketPairs then some ⟨.code, outer⟩ else none
    | [] => none
  else some ⟨.code, brackets⟩

/-- One character of a text; none where Java would not read on, or where a comment begins. -/
def advance (r : Reading) (c : Char) : Option Reading :=
  match r.place with
  | .code => advanceCode r.brackets c
  | .slash => if c = '/' ∨ c = '*' then none else advanceCode r.brackets c
  | .string =>
    if c = '"' then some ⟨.code, r.brackets⟩
    else if c = '\\' then some ⟨.stringEscape, r.brackets⟩
    else if c = '\n' ∨ c = '\r' then none
    else some r
  | .stringEscape => if isJavaEscape c then some ⟨.string, r.brackets⟩ else none
  | .character =>
    if c = '\\' then some ⟨.characterEscape, r.brackets⟩
    else if c = '\'' ∨ c = '\n' ∨ c = '\r' then none
    else some ⟨.characterEnd, r.brackets⟩
  | .characterEscape => if isJavaEscape c then some ⟨.characterEnd, r.brackets⟩ else none
  | .characterEnd => if c = '\'' then some ⟨.code, r.brackets⟩ else none

/-- The characters of a text, one after the other. -/
def follow (r : Reading) (text : List Char) : Option Reading :=
  text.foldlM advance r

@[simp]
theorem follow_nil (r : Reading) : follow r [] = some r := rfl

@[simp]
theorem follow_cons (r : Reading) (c : Char) (text : List Char) :
    follow r (c :: text) = (advance r c).bind (follow · text) := rfl

@[simp]
theorem follow_append (r : Reading) (text more : List Char) :
    follow r (text ++ more) = (follow r text).bind (follow · more) :=
  List.foldlM_append

/-- The reader does not get past a line break in a literal. -/
theorem advance_lineBreak {r : Reading} (h : r.place.inLiteral = true) {c : Char} (hc : c = '\n' ∨ c = '\r') :
    advance r c = none := by
  obtain ⟨place, brackets⟩ := r
  rcases hc with rfl | rfl <;> cases place <;> first | rfl | cases h

/-- A text that has been read has all its line breaks outside of literals. -/
theorem not_inLiteral_of_follow {r r' : Reading} {before after : List Char} {c : Char} (hc : c = '\n' ∨ c = '\r')
    (h : follow r (before ++ c :: after) = some r') : ∃ s, follow r before = some s ∧ s.place.inLiteral = false := by
  rw [follow_append] at h
  obtain ⟨s, hs, hrest⟩ := Option.bind_eq_some_iff.mp h
  refine ⟨s, hs, Bool.eq_false_iff.mpr fun hin => ?_⟩
  rw [follow_cons, advance_lineBreak hin hc] at hrest
  cases hrest

/-! ## §2 Balanced texts -/

/-- The text leads from some open brackets to others, outside of literals. -/
def Leads (brackets : List Char) (text : String) (brackets' : List Char) : Prop :=
  follow ⟨.code, brackets⟩ text.toList = some ⟨.code, brackets'⟩

/-- The text leaves open what has been open before. -/
def Balanced (text : String) : Prop :=
  ∀ brackets, Leads brackets text brackets

theorem Leads.append {brackets brackets' brackets'' : List Char} {text more : String}
    (h : Leads brackets text brackets') (h' : Leads brackets' more brackets'') :
    Leads brackets (text ++ more) brackets'' := by
  rw [Leads, String.toList_append, follow_append, h]
  exact h'

/-- Characters that mean nothing to the reader outside of literals. -/
def isPlainChar (c : Char) : Bool :=
  c ∉ ['"', '\'', '/', '\\', '(', ')', '[', ']', '\x7b', '\x7d']

theorem advanceCode_plain {c : Char} (h : isPlainChar c = true) (brackets : List Char) :
    advanceCode brackets c = some ⟨.code, brackets⟩ := by
  simp only [isPlainChar, List.mem_cons, List.not_mem_nil, or_false, not_or, decide_eq_true_eq] at h
  simp [advanceCode, bracketPairs, h]

theorem isPlainChar_of_isWordChar {c : Char} (h : isWordChar c = true) : isPlainChar c = true := by
  simp only [isPlainChar, decide_eq_true_eq]
  intro hmem
  -- No character that the reader looks at is one of words.
  have hall : (['"', '\'', '/', '\\', '(', ')', '[', ']', '\x7b', '\x7d'].all fun d => !isWordChar d) = true := by
    decide
  have hother := List.all_eq_true.mp hall c hmem
  rw [h] at hother
  cases hother

namespace Balanced

variable {a b inner : String}

theorem empty : Balanced "" := fun _ => rfl

theorem append (ha : Balanced a) (hb : Balanced b) : Balanced (a ++ b) :=
  fun brackets => (ha brackets).append (hb brackets)

theorem ofList_plain {text : List Char} (h : ∀ c ∈ text, isPlainChar c = true) : Balanced (String.ofList text) := by
  intro brackets
  rw [Leads, String.toList_ofList]
  induction text with
  | nil => rfl
  | cons c rest ih =>
    obtain ⟨hc, hrest⟩ := List.forall_mem_cons.mp h
    rw [follow_cons, advance, advanceCode_plain hc]
    exact ih hrest

theorem plain (h : ∀ c ∈ a.toList, isPlainChar c = true) : Balanced a := by
  simpa using ofList_plain h

theorem word (h : IsWord a.toList) : Balanced a :=
  plain fun c hc => isPlainChar_of_isWordChar (h.2 c hc)

/-- Balanced texts with commas between them. -/
theorem commaSeparated {texts : List String} (h : ∀ text ∈ texts, Balanced text) :
    Balanced (Java.commaSeparated texts) := by
  have hcomma : Balanced ", " := fun _ => rfl
  cases texts with
  | nil => exact empty
  | cons first rest =>
    obtain ⟨hfirst, hrest⟩ := List.forall_mem_cons.mp h
    rw [Java.commaSeparated]
    induction rest generalizing first with
    | nil => simpa using hfirst
    | cons next rest ih =>
      obtain ⟨hnext, hothers⟩ := List.forall_mem_cons.mp hrest
      rw [String.intercalate_cons_cons]
      exact (hfirst.append hcomma).append (ih next (by simpa using ⟨hnext, hothers⟩) hnext hothers)

end Balanced

/-! ## §3 Literals -/

/-- Escape sequences of programs are escape sequences of Java. -/
theorem isJavaEscape_of_isEscape {c : Char} (h : Escape.isEscape c = true) : isJavaEscape c = true := by
  simp only [Escape.isEscape, Bool.or_eq_true, decide_eq_true_eq] at h
  simp only [isJavaEscape, List.mem_cons, List.not_mem_nil, or_false, decide_eq_true_eq]
  tauto

/-- An element of a string leaves the reader in the string. -/
theorem follow_stringElement {e : List Char} (h : IsElement '"' e) (brackets : List Char) :
    follow ⟨.string, brackets⟩ e = some ⟨.string, brackets⟩ := by
  rcases h with ⟨c, rfl, hslash, hquote, hbreak⟩ | ⟨c, rfl, hescape⟩
  · simp only [CharClass.lineBreak, Bool.or_eq_false_iff, decide_eq_false_iff_not] at hbreak
    simp [advance, hslash, hquote, hbreak]
  · simp [advance, isJavaEscape_of_isEscape hescape]

/-- An element of a character is followed by the second quote. -/
theorem follow_characterElement {e : List Char} (h : IsElement '\'' e) (brackets : List Char) :
    follow ⟨.character, brackets⟩ e = some ⟨.characterEnd, brackets⟩ := by
  rcases h with ⟨c, rfl, hslash, hquote, hbreak⟩ | ⟨c, rfl, hescape⟩
  · simp only [CharClass.lineBreak, Bool.or_eq_false_iff, decide_eq_false_iff_not] at hbreak
    simp [advance, hslash, hquote, hbreak]
  · simp [advance, isJavaEscape_of_isEscape hescape]

/-- A written text leaves the reader in its string. -/
theorem follow_encode (text : List Char) (brackets : List Char) :
    follow ⟨.string, brackets⟩ (Escape.encode text) = some ⟨.string, brackets⟩ := by
  induction text with
  | nil => rfl
  | cons c rest ih =>
    rw [Escape.encode, List.flatMap_cons, follow_append, follow_stringElement (isElement_encodeChar (Or.inr rfl) c)]
    exact ih

/-- A literal ends where it should, whatever stands in it. -/
theorem balanced_literal (value : Literal) : Balanced (literal value) := by
  have hminus : Balanced "-" := fun _ => rfl
  cases value with
  | nil => exact .word (by decide)
  | boolean b =>
    have hword : ∀ b, IsWord (literal (.boolean b)).toList := by decide
    exact .word (hword b)
  | integer n =>
    obtain ⟨sign, hdigits, hsign, -⟩ := Digits.ofInt_eq n
    rw [literal, Digits.text, hdigits, String.ofList_append]
    have hnumber : Balanced (String.ofList (Nat.toDigits 10 n.natAbs)) := .word (by simpa using isWord_toDigits _)
    rcases hsign with rfl | rfl
    · exact Balanced.empty.append hnumber
    · exact hminus.append hnumber
  | decimal d =>
    have hnumber : Balanced (String.ofList d.plainMagnitude) := .word (by simpa using isWord_plainMagnitude d)
    rw [literal, Decimal.plain]
    split_ifs
    · rw [String.ofList_cons]
      exact hminus.append hnumber
    · exact hnumber
  -- Between quotes brackets do not count, and escapes keep the closing quote from being met early.
  | character c =>
    intro brackets
    simp [Leads, literal, advance, advanceCode, follow_characterElement (isElement_encodeChar (Or.inl rfl) c)]
  | string text =>
    intro brackets
    simp [Leads, literal, advance, advanceCode, follow_encode]

/-! ## §4 Expressions -/

/-- Names are words where an expression mentions one. -/
def Mentions (t : SideTable) : Expr → Prop
  | .variable node name | .element node name _ => IsWord (variableName t node.id name).toList
  | .call node name _ => IsWord (functionName t node.id name).toList
  | .literal _ _ | .group _ _ | .binary _ _ _ _ | .list _ _ => True

theorem balanced_power {left right : String} (t : SideTable) (id : Nat) (hleft : Balanced left)
    (hright : Balanced right) : Balanced (power t id left right) := by
  have hresult : Balanced ("Math.pow(" ++ left ++ ", " ++ right ++ ")") := by
    intro brackets
    have hopen : Leads brackets "Math.pow(" ('(' :: brackets) := rfl
    have hcomma : Leads ('(' :: brackets) ", " ('(' :: brackets) := rfl
    have hclose : Leads ('(' :: brackets) ")" brackets := rfl
    exact (((hopen.append (hleft _)).append hcomma).append (hright _)).append hclose
  have hcast : Balanced "(int) " := fun _ => rfl
  unfold power
  split_ifs
  · exact hcast.append hresult
  · exact hresult

theorem balanced_operator (op : Operator) : Balanced (" " ++ op.symbol ++ " ") := by
  cases op <;> exact fun _ => rfl

mutual

/-- The text of an expression is balanced if names are words. -/
theorem balanced_expression {t : SideTable} : ∀ e : Expr, (∀ x ∈ e.parts, Mentions t x) → Balanced (expression t e)
  | .literal _ value, _ => balanced_literal value
  | .group _ inner, h => by
    have hinner := balanced_expression inner (List.forall_mem_cons.mp h).2
    intro brackets
    have hopen : Leads brackets "(" ('(' :: brackets) := rfl
    have hclose : Leads ('(' :: brackets) ")" brackets := rfl
    exact (hopen.append (hinner _)).append hclose
  | .binary node op left right, h => by
    obtain ⟨hleft, hright⟩ := List.forall_mem_append.mp (List.forall_mem_cons.mp h).2
    have hleft := balanced_expression left hleft
    have hright := balanced_expression right hright
    rw [expression]
    split_ifs
    · exact balanced_power t node.id hleft hright
    · -- Taken together with its blanks the operator is balanced, a slash alone could begin a comment.
      have hassoc : expression t left ++ " " ++ op.symbol ++ " " ++ expression t right =
          expression t left ++ (" " ++ op.symbol ++ " ") ++ expression t right := by simp [String.append_assoc]
      rw [hassoc]
      exact (hleft.append (balanced_operator op)).append hright
  | .variable _ _, h => .word (h _ List.mem_cons_self)
  | .element _ _ index, h => by
    obtain ⟨hname, hparts⟩ := List.forall_mem_cons.mp h
    have hindex := balanced_expression index hparts
    intro brackets
    have hopen : Leads brackets "[" ('[' :: brackets) := rfl
    have hclose : Leads ('[' :: brackets) "]" brackets := rfl
    exact (((Balanced.word hname brackets).append hopen).append (hindex _)).append hclose
  | .call _ _ arguments, h => by
    obtain ⟨hname, hparts⟩ := List.forall_mem_cons.mp h
    have harguments := Balanced.commaSeparated (balanced_expressions arguments hparts)
    intro brackets
    have hopen : Leads brackets "(" ('(' :: brackets) := rfl
    have hclose : Leads ('(' :: brackets) ")" brackets := rfl
    exact (((Balanced.word hname brackets).append hopen).append (harguments _)).append hclose
  | .list _ elements, h => by
    have helements := Balanced.commaSeparated (balanced_expressions elements (List.forall_mem_cons.mp h).2)
    intro brackets
    have hopen : Leads brackets "\x7b" ('\x7b' :: brackets) := rfl
    have hclose : Leads ('\x7b' :: brackets) "\x7d" brackets := rfl
    exact (hopen.append (helements _)).append hclose

/-- So are the texts of several expressions. -/
theorem balanced_expressions {t : SideTable} : ∀ es : List Expr, (∀ x ∈ Expr.allParts es, Mentions t x) →
    ∀ text ∈ expressions t es, Balanced text
  | [], _ => List.forall_mem_nil _
  | e :: rest, h => by
    obtain ⟨hfirst, hrest⟩ := List.forall_mem_append.mp h
    exact List.forall_mem_cons.mpr ⟨balanced_expression e hfirst, balanced_expressions rest hrest⟩

end

/-! ## §5 Lines -/

@[simp]
theorem render_nil : render [] = "" := rfl

@[simp]
theorem render_cons (l : Line) (lines : List Line) : render (l :: lines) = l.render ++ "\n" ++ render lines := by
  simp [render, String.join_cons]

@[simp]
theorem render_append (lines more : List Line) : render (lines ++ more) = render lines ++ render more := by
  induction lines with
  | nil => simp
  | cons l rest ih => simp [ih, String.append_assoc]

/-- A line leads where its text does, and lines behind it lead on. -/
theorem Leads.line {brackets brackets' brackets'' : List Char} {text : String} {lines : List Line} (indent : Nat)
    (h : Leads brackets text brackets') (hrest : Leads brackets' (render lines) brackets'') :
    Leads brackets (render (⟨indent, text⟩ :: lines)) brackets'' := by
  have hblanks : Balanced (String.ofList (List.replicate (4 * indent) ' ')) := by
    refine .ofList_plain fun c hc => ?_
    rw [List.eq_of_mem_replicate hc]
    decide
  have hbreak : Balanced "\n" := fun _ => rfl
  rw [render_cons, Line.render]
  exact (((hblanks _).append h).append (hbreak _)).append hrest

theorem Leads.lines {brackets brackets' brackets'' : List Char} {lines more : List Line}
    (h : Leads brackets (render lines) brackets') (h' : Leads brackets' (render more) brackets'') :
    Leads brackets (render (lines ++ more)) brackets'' := by
  rw [render_append]
  exact h.append h'

/-- A line whose text is balanced. -/
theorem Balanced.line {text : String} (h : Balanced text) (indent : Nat) : Balanced (render [⟨indent, text⟩]) :=
  fun brackets => .line indent (h brackets) rfl

/-- The text opens a brace and leaves nothing else open. -/
def OpensBrace (text : String) : Prop :=
  ∀ brackets, Leads brackets text ('\x7b' :: brackets)

/-- What is printed before the braces of a statement: a condition in parentheses. -/
theorem opensBrace_condition {keyword condition : String}
    (hkeyword : ∀ brackets, Leads brackets keyword ('(' :: brackets)) (h : Balanced condition) :
    OpensBrace (keyword ++ condition ++ ") \x7b") := by
  intro brackets
  have hclose : Leads ('(' :: brackets) ") \x7b" ('\x7b' :: brackets) := rfl
  exact ((hkeyword _).append (h _)).append hclose

/-- Lines between a line that opens a brace and one that closes it.  Between them that brace may be closed and opened
again. -/
theorem OpensBrace.block {text : String} {body : List Line} (h : OpensBrace text) (indent : Nat)
    (hbody : ∀ brackets, Leads ('\x7b' :: brackets) (render body) ('\x7b' :: brackets)) :
    Balanced (render (⟨indent, text⟩ :: body ++ [⟨indent, "\x7d"⟩])) := by
  intro brackets
  have hclose : Leads ('\x7b' :: brackets) "\x7d" brackets := rfl
  exact .lines (.line indent (h _) (hbody _)) (.line indent hclose rfl)

/-! ## §6 Statements -/

/-- The declared names are names of programs, and the expressions have balanced texts. -/
abbrev Prints (t : SideTable) : Names → List Expr → Prop :=
  Throughout IsName fun e => Balanced (expression t e)

theorem balanced_javaName (τ : Ty) : Balanced τ.javaName := by
  cases τ <;> exact fun _ => rfl

theorem balanced_typedName {t : SideTable} (ht : t.Worded) (id : Nat) {name : String} (hname : IsName name) :
    Balanced (typedName t id name) := by
  have hblank : Balanced " " := fun _ => rfl
  unfold typedName
  cases hfind : t.findVariable? id with
  | none => exact ((balanced_javaName _).append hblank).append (.word (isWord_mangle hname))
  | some v =>
    have hbrackets : Balanced (if v.list then "[]" else "") := by
      split_ifs <;> exact fun _ => rfl
    have hword : Balanced v.runtimeName := .word (ht.vars _ (mem_of_lookup hfind))
    exact (((balanced_javaName _).append hbrackets).append hblank).append hword

theorem balanced_initializer {t : SideTable} {value : Option Expr} (h : ∀ e ∈ value, Balanced (expression t e)) :
    Balanced (initializer t value) := by
  cases value with
  | none => exact .empty
  | some e =>
    have hequals : Balanced " = " := fun _ => rfl
    exact hequals.append (h e rfl)

mutual

/-- The lines of a statement are balanced. -/
theorem balanced_statement {t : SideTable} (ht : t.Worded) (indent : Nat) :
    ∀ st : Statement, Prints t st.locals st.expressions → Balanced (render (statement t indent st))
  | .expression _ _, h => by
    have hend : Balanced ";" := fun _ => rfl
    exact .line (h.head.append hend) indent
  | .declaration node name _ value, h => by
    have hend : Balanced ";" := fun _ => rfl
    have hname := balanced_typedName ht node.id (h.names _ List.mem_cons_self)
    have hvalue := balanced_initializer fun e he => h.expressions e (Option.mem_toList.mpr he)
    exact .line ((hname.append hvalue).append hend) indent
  | .assignment _ _ _, h => by
    have hend : Balanced ";" := fun _ => rfl
    have hequals : Balanced " = " := fun _ => rfl
    exact .line (((h.head.append hequals).append h.tail.head).append hend) indent
  | .conditional _ condition onTrue onFalse, h => by
    have hopen : OpensBrace ("if (" ++ expression t condition ++ ") \x7b") :=
      opensBrace_condition (fun _ => rfl) h.head
    have htrue := balanced_statements ht (indent + 1) onTrue h.tail.left
    have hfalse := balanced_statements ht (indent + 1) onFalse h.tail.right
    rw [statement, List.cons_append]
    refine hopen.block indent fun brackets => .lines (htrue _) ?_
    split_ifs
    · rfl
    · -- The line between the branches closes the brace of the condition and opens that of the alternative.
      have helse : Leads ('\x7b' :: brackets) "\x7d else \x7b" ('\x7b' :: brackets) := rfl
      exact .line indent helse (hfalse _)
  | .switch _ condition cases, h => by
    have hopen : OpensBrace ("switch (" ++ expression t condition ++ ") \x7b") :=
      opensBrace_condition (fun _ => rfl) h.head
    exact hopen.block indent fun _ => balanced_arms ht (indent + 1) cases h.tail _
  | .loop _ condition body, h => by
    have hopen : OpensBrace ("while (" ++ expression t condition ++ ") \x7b") :=
      opensBrace_condition (fun _ => rfl) h.head
    exact hopen.block indent fun _ => balanced_statements ht (indent + 1) body h.tail _
  | .returning _ _, h => by
    have hreturn : Balanced "return " := fun _ => rfl
    have hend : Balanced ";" := fun _ => rfl
    exact .line ((hreturn.append h.head).append hend) indent

/-- So are those of several statements. -/
theorem balanced_statements {t : SideTable} (ht : t.Worded) (indent : Nat) :
    ∀ body : List Statement, Prints t (blockLocals body) (blockExpressions body) →
      Balanced (render (statements t indent body))
  | [], _ => .empty
  | first :: rest, h => fun _ =>
    .lines (balanced_statement ht indent first h.left _) (balanced_statements ht indent rest h.right _)

/-- So are those of an arm. -/
theorem balanced_arm {t : SideTable} (ht : t.Worded) (indent : Nat) :
    ∀ c : Case, Prints t c.locals c.expressions → Balanced (render (arm t indent c))
  | .mk _ (some value) body, h => by
    have hcase : Balanced "case " := fun _ => rfl
    have hcolon : Balanced ":" := fun _ => rfl
    have hbreak : Balanced "break;" := fun _ => rfl
    have hbody := balanced_statements ht (indent + 1) body h.tail
    exact fun _ => .lines (.line indent (((hcase.append h.head).append hcolon) _) (hbody _)) (hbreak.line _ _)
  | .mk _ none body, h => by
    have hdefault : Balanced "default:" := fun _ => rfl
    exact fun _ => .line indent (hdefault _) (balanced_statements ht (indent + 1) body h _)

/-- So are those of several arms. -/
theorem balanced_arms {t : SideTable} (ht : t.Worded) (indent : Nat) :
    ∀ cs : List Case, Prints t (armLocals cs) (armExpressions cs) → Balanced (render (arms t indent cs))
  | [], _ => .empty
  | first :: rest, h => fun _ =>
    .lines (balanced_arm ht indent first h.left _) (balanced_arms ht indent rest h.right _)

end

/-! ## §7 Declarations -/

theorem balanced_global {t : SideTable} (ht : t.Worded) {g : Global} (hname : IsName g.name)
    (hvalue : ∀ e ∈ g.value, Balanced (expression t e)) : Balanced (global t g) := by
  have hblank : Balanced " " := fun _ => rfl
  have hend : Balanced ";" := fun _ => rfl
  have harray : Balanced "[] " := fun _ => rfl
  have hfinal : Balanced (if g.mutable then "" else "final ") := by
    split_ifs <;> exact fun _ => rfl
  have hinit := balanced_initializer hvalue
  -- Both kinds of globals have a type, a name and an initial value.
  have hboth : ∀ (name : String) (τ : Ty), Balanced name →
      Balanced (if g.isList then τ.javaName ++ "[] " ++ name ++ initializer t g.value ++ ";"
        else (if g.mutable then "" else "final ") ++ τ.javaName ++ " " ++ name ++ initializer t g.value ++ ";") := by
    intro name τ hword
    have htype := balanced_javaName τ
    split
    · exact (((htype.append harray).append hword).append hinit).append hend
    · exact ((((hfinal.append htype).append hblank).append hword).append hinit).append hend
  unfold global
  cases hfind : t.findVariable? g.node.id with
  | none => exact hboth _ _ (.word (isWord_mangle hname))
  | some v => exact hboth _ _ (.word (ht.vars _ (mem_of_lookup hfind)))

theorem balanced_parameter {t : SideTable} (ht : t.Worded) {q : Parameter} (hname : IsName q.name) :
    Balanced (parameter t q) := by
  have hblank : Balanced " " := fun _ => rfl
  unfold parameter
  cases hfind : t.findVariable? q.node.id with
  | none => exact ((balanced_javaName _).append hblank).append (.word (isWord_mangle hname))
  | some v => exact ((balanced_javaName _).append hblank).append (.word (ht.vars _ (mem_of_lookup hfind)))

/-- What is printed of a function before the opening brace of its method. -/
def methodHead (t : SideTable) (f : Function) : String :=
  let (name, returns) :=
    match t.findFunction? f.node.id with
    | some info => (info.runtimeName, info.returns)
    | none => (mangle f.name, Ty.nil)
  returns.javaName ++ " " ++ name ++ "(" ++ commaSeparated (f.parameters.map (parameter t)) ++ ") "

/-- The lines of a function are its head with a brace, those of its statements, and a closing brace. -/
theorem function_eq (t : SideTable) (f : Function) :
    function t f = ⟨1, methodHead t f ++ "\x7b"⟩ :: statements t 2 f.body ++ [⟨1, "\x7d"⟩] := by
  have hbrace : ") \x7b" = ") " ++ "\x7b" := rfl
  unfold function methodHead
  rw [hbrace]
  cases t.findFunction? f.node.id <;> simp [String.append_assoc]

theorem balanced_methodHead {t : SideTable} (ht : t.Worded) {f : Function} (hname : IsName f.name)
    (hparameters : ∀ q ∈ f.parameters, IsName q.name) : Balanced (methodHead t f) := by
  have hblank : Balanced " " := fun _ => rfl
  have htexts : Balanced (commaSeparated (f.parameters.map (parameter t))) :=
    .commaSeparated (List.forall_mem_map.mpr fun q hq => balanced_parameter ht (hparameters q hq))
  have hboth : ∀ (name : String) (τ : Ty), Balanced name → Balanced (τ.javaName ++ " " ++ name ++ "(" ++
      commaSeparated (f.parameters.map (parameter t)) ++ ") ") := by
    intro name τ hword brackets
    have hopen : Leads brackets "(" ('(' :: brackets) := rfl
    have hclose : Leads ('(' :: brackets) ") " brackets := rfl
    have hbefore := ((balanced_javaName τ).append hblank).append hword
    exact (((hbefore _).append hopen).append (htexts _)).append hclose
  unfold methodHead
  cases hfind : t.findFunction? f.node.id with
  | none => exact hboth _ _ (.word (isWord_mangle hname))
  | some info => exact hboth _ _ (.word (ht.funs _ (mem_of_lookup hfind)))

/-- The lines of a method are balanced if those of its statements are. -/
theorem balanced_function {t : SideTable} {f : Function} (hhead : Balanced (methodHead t f))
    (hbody : Balanced (render (statements t 2 f.body))) : Balanced (render (function t f)) := by
  have hopen : OpensBrace (methodHead t f ++ "\x7b") := fun brackets => (hhead brackets).append rfl
  rw [function_eq]
  exact hopen.block 1 fun _ => hbody _

end BlockLang.Java
