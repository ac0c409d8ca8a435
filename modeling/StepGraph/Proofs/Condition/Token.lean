import StepGraph.Proofs.Text.Quoted
import StepGraph.Script.Identifier
import StepGraph.Text.Blank
import StepGraph.Text.Digits

/-!
# The tokens of an expression

An expression of a script is taken apart into names, texts between single
quotes, integers, signs and brackets, with gaps between them. The scanner takes
as many characters into a token as it can (`Token.Scan.extend?`), and a token
is done when the next character does not go on with it.

A separator goes on with no token, so what stands before one and what begins
with one are taken apart by themselves (`tokens?_append`). Names, quoted texts
and the signs of operators are single tokens.
-/

namespace StepGraph.Expression

/-- The operators that stand between two operands. -/
inductive Operator where
  | or
  | and
  | equal
  | notEqual
  | identical
  | notIdentical
  | less
  | lessOrEqual
  | greater
  | greaterOrEqual
  deriving DecidableEq, Repr

/-- A token of an expression. A literal is as it is spelt, with its quotes, and a
keyword is a word like any other. -/
inductive Token where
  | word (name : String)
  | text (literal : String)
  | integer (value : Nat)
  | operator (operator : Operator)
  | bang
  | opening
  | closing
  | dot
  | comma
  deriving DecidableEq, Repr

namespace Token

/-! ## The scanner -/

/-- The signs, which may begin one another. -/
def signs : List (List Char × Token) :=
  [(['|', '|'], .operator .or), (['&', '&'], .operator .and), (['=', '='], .operator .equal),
    (['!', '='], .operator .notEqual), (['=', '=', '='], .operator .identical),
    (['!', '=', '='], .operator .notIdentical), (['<'], .operator .less),
    (['<', '='], .operator .lessOrEqual), (['>'], .operator .greater),
    (['>', '='], .operator .greaterOrEqual), (['!'], .bang)]

/-- Whether a sign begins with some characters. -/
def beginsSign (read : List Char) : Bool :=
  signs.any fun sign => read.isPrefixOf sign.1

/-- What is a token by itself. -/
def mark? : Char → Option Token
  | '(' => some .opening
  | ')' => some .closing
  | '.' => some .dot
  | ',' => some .comma
  | _ => none

/-- A blank or an end of a line. The language of scripts has a blank without
width, and does not count the next line character. -/
def isGap (c : Char) : Bool :=
  c == '\ufeff' || (Text.isBlank c && c != '\u0085')

/-- Whether some characters are an integer, which has no zero in front. -/
def isInteger (digits : List Char) : Bool :=
  digits.all Char.isDigit && (digits.length == 1 || digits.head? != some '0')

/-- Where the scanner stands: between tokens, in a token of which it has read a
part, or at the end of one. -/
inductive Scan where
  | between
  | word (read : List Char)
  | number (read : List Char)
  | sign (read : List Char)
  | literal (read : List Char)
  | escape (read : List Char)
  | done (token : Token)

namespace Scan

/-- How a token begins. -/
def begin? (c : Char) : Option Scan :=
  if Script.startsIdentifier c then some (word [c])
  else if c.isDigit then some (number [c])
  else if c = '\'' then some (literal [c])
  else if beginsSign [c] then some (sign [c])
  else if isGap c then some between
  else (mark? c).map done

/-- How a token goes on. A number takes what may not stand behind one as well,
and comes to nothing. In a literal a line ends only behind a backslash, with one
character or two. -/
def extend? : Scan → Char → Option Scan
  | between, _ => none
  | word read, c => if Script.continuesIdentifier c then some (word (read ++ [c])) else none
  | number read, c =>
    if Script.continuesIdentifier c ∨ c = '.' then some (number (read ++ [c])) else none
  | sign read, c => if beginsSign (read ++ [c]) then some (sign (read ++ [c])) else none
  | literal read, c =>
    if c = '\'' then some (done (.text (String.ofList (read ++ [c]))))
    else if c = '\\' then some (escape (read ++ [c]))
    else if c = '\r' ∨ (c = '\n' ∧ read.getLast? ≠ some '\r') then none
    else some (literal (read ++ [c]))
  | escape read, c => some (literal (read ++ [c]))
  | done _, _ => none

/-- The token that is read, if it is one. -/
def finish? : Scan → Option (List Token)
  | between => some []
  | word read => some [.word (String.ofList read)]
  | number read =>
    if isInteger read then some [.integer (Text.ofDigits 10 (read.map Text.digitValue))] else none
  | sign read => (signs.lookup read).map fun token => [token]
  | literal _ => none
  | escape _ => none
  | done token => some [token]

/-- **The tokens of a text**, with the one that the scanner stands in. -/
def tokens? : Scan → List Char → Option (List Token)
  | scan, [] => scan.finish?
  | scan, c :: rest =>
    match scan.extend? c with
    | some next => tokens? next rest
    | none => do
      let found ← scan.finish?
      let next ← begin? c
      let others ← tokens? next rest
      return found ++ others

end Scan

open Scan (tokens?)

/-- **The tokens of an expression.** -/
def all? (text : String) : Option (List Token) :=
  tokens? .between text.toList

/-- A sign takes as many characters as it can. A number with a point behind it
is no integer. -/
example : all? "!a1.f('b\\'', 10)!== c" = some [.bang, .word "a1", .dot, .word "f", .opening,
    .text "'b\\''", .comma, .integer 10, .closing, .operator .notIdentical, .word "c"] ∧
    all? "1.f()" = none := by decide

/-! ## Piece by piece -/

variable {scan : Scan} {text rest : List Char} {tokens : List Token} {c : Char}

/-- A character that goes on with no token that may end before it. -/
def Separates (c : Char) : Prop :=
  ∀ scan tokens, Scan.finish? scan = some tokens → scan.extend? c = none

theorem separates_of_not_mem (hname : Script.continuesIdentifier c = false) (hpoint : c ≠ '.')
    (hsign : ∀ sign ∈ signs, c ∉ sign.1) : Separates c := by
  intro scan tokens hfinish
  cases scan with
  | between => rfl
  | word read => simp [Scan.extend?, hname]
  | number read => simp [Scan.extend?, hname, hpoint]
  | sign read =>
    have hbegins : beginsSign (read ++ [c]) = false := by
      rw [beginsSign, List.any_eq_false]
      intro sign hmem hprefix
      refine hsign sign hmem ((List.isPrefixOf_iff_prefix.mp hprefix).subset ?_)
      exact List.mem_append_right read List.mem_cons_self
    simp [Scan.extend?, hbegins]
  | literal read => cases hfinish
  | escape read => cases hfinish
  | done token => rfl

theorem separates_blank : Separates ' ' :=
  separates_of_not_mem (by decide) (by decide) (by decide)

theorem separates_opening : Separates '(' :=
  separates_of_not_mem (by decide) (by decide) (by decide)

theorem separates_closing : Separates ')' :=
  separates_of_not_mem (by decide) (by decide) (by decide)

/-- Where a token is done the scanner begins anew. -/
theorem tokens?_of_extend?_eq_none (hextend : scan.extend? c = none)
    (hfinish : scan.finish? = some tokens) :
    tokens? scan (c :: rest) = (tokens? .between (c :: rest)).map (tokens ++ ·) := by
  have hbetween : Scan.between.extend? c = none := rfl
  rw [tokens?, tokens?, hextend, hfinish, hbetween]
  cases hbegin : Scan.begin? c with
  | none => rfl
  | some next => cases hnext : tokens? next rest <;> simp [hnext, Scan.finish?]

/-- **A text is taken apart piece by piece** where a separator stands. -/
theorem tokens?_append (h : tokens? scan text = some tokens) (hc : Separates c) :
    tokens? scan (text ++ c :: rest) = (tokens? .between (c :: rest)).map (tokens ++ ·) := by
  induction text generalizing scan tokens with
  | nil => exact tokens?_of_extend?_eq_none (hc scan tokens h) h
  | cons d text ih =>
    rw [tokens?] at h
    rw [List.cons_append, tokens?]
    split at h
    · exact ih h
    · simp only [Option.bind_eq_bind, Option.bind_eq_some_iff] at h
      obtain ⟨found, hfound, next, hnext, others, hothers, heq⟩ := h
      cases heq
      cases htail : tokens? .between (c :: rest) <;>
        simp [hfound, hnext, ih hothers, htail]

/-- Behind a token that is done the scanner begins anew. -/
theorem tokens?_done (token : Token) (rest : List Char) :
    tokens? (.done token) rest = (tokens? .between rest).map (token :: ·) := by
  cases rest with
  | nil => rfl
  | cons c rest =>
    have hfinish : Scan.finish? (.done token) = some [token] := rfl
    exact tokens?_of_extend?_eq_none rfl hfinish

/-- A character that is a token by itself. -/
theorem tokens?_mark {token : Token} (h : Scan.begin? c = some (.done token)) :
    tokens? .between (c :: rest) = (tokens? .between rest).map (token :: ·) := by
  have hextend : Scan.between.extend? c = none := rfl
  rw [tokens?, hextend, h, ← tokens?_done]
  cases htail : tokens? (.done token) rest <;> simp [htail, Scan.finish?]

theorem tokens?_opening :
    tokens? .between ('(' :: rest) = (tokens? .between rest).map (.opening :: ·) :=
  tokens?_mark rfl

theorem tokens?_closing :
    tokens? .between (')' :: rest) = (tokens? .between rest).map (.closing :: ·) :=
  tokens?_mark rfl

/-- A blank is passed over. -/
theorem tokens?_blank : tokens? .between (' ' :: rest) = tokens? .between rest := by
  have hextend : Scan.between.extend? ' ' = none := rfl
  have hbegin : Scan.begin? ' ' = some .between := rfl
  rw [tokens?, hextend, hbegin]
  cases htail : tokens? .between rest <;> simp [htail, Scan.finish?]

/-- An exclamation mark is a token by itself, unless a sign of equality stands
behind it. -/
theorem tokens?_bang (h : rest.head? ≠ some '=') :
    tokens? .between ('!' :: rest) = (tokens? .between rest).map (.bang :: ·) := by
  have hextend : Scan.between.extend? '!' = none := rfl
  have hbegin : Scan.begin? '!' = some (.sign ['!']) := rfl
  have hsign : tokens? (.sign ['!']) rest = (tokens? .between rest).map (.bang :: ·) := by
    cases rest with
    | nil => rfl
    | cons c rest =>
      have hc : c ≠ '=' := fun hc => h (congrArg some hc)
      have hstop : (Scan.sign ['!']).extend? c = none := by
        simp [Scan.extend?, beginsSign, signs, List.isPrefixOf, hc]
      exact tokens?_of_extend?_eq_none hstop rfl
  rw [tokens?, hextend, hbegin, ← hsign]
  cases htail : tokens? (.sign ['!']) rest <;> simp [htail, Scan.finish?]

/-! ## Single tokens -/

/-- **An identifier is one token.** -/
theorem all?_of_isIdentifier {name : String} (h : Script.isIdentifier name = true) :
    all? name = some [.word name] := by
  have hword (read rest : List Char) (hrest : ∀ c ∈ rest, Script.continuesIdentifier c = true) :
      tokens? (.word read) rest = some [.word (String.ofList (read ++ rest))] := by
    induction rest generalizing read with
    | nil => rw [List.append_nil]; rfl
    | cons c rest ih =>
      obtain ⟨hc, hrest⟩ := List.forall_mem_cons.mp hrest
      rw [tokens?, Scan.extend?, if_pos hc]
      simpa using ih (read ++ [c]) hrest
  rw [Script.isIdentifier] at h
  split at h
  · cases h
  · rename_i first rest hname
    rw [Bool.and_eq_true, List.all_eq_true] at h
    have hextend : Scan.between.extend? first = none := rfl
    have hbegin : Scan.begin? first = some (.word [first]) := by
      rw [Scan.begin?, if_pos h.1]
    rw [all?, hname, tokens?, hextend, hbegin]
    simp [hword [first] rest h.2, Scan.finish?, ← hname]

/-- **A quoted text is one token.** -/
theorem all?_quote (value : String) :
    all? (Text.quote value) = some [.text (Text.quote value)] := by
  have hliteral (read text : List Char) :
      tokens? (.literal read) (text.flatMap Text.quotedChar ++ ['\'']) =
        some [.text (String.ofList (read ++ (text.flatMap Text.quotedChar ++ ['\''])))] := by
    induction text generalizing read with
    | nil => rfl
    | cons c text ih =>
      rw [List.flatMap_cons, List.append_assoc]
      rcases Text.quotedChar_cases c with
        ⟨escape, hwritten, -⟩ | ⟨hself, hslash, hquote, hfeed, hreturn⟩
      · rw [hwritten, List.cons_append, List.singleton_append, tokens?, Scan.extend?,
          if_neg (by decide), if_pos rfl]
        dsimp only
        rw [tokens?, Scan.extend?]
        simpa using ih (read ++ ['\\'] ++ [escape])
      · have hstays : ¬ (c = '\r' ∨ (c = '\n' ∧ read.getLast? ≠ some '\r')) :=
          not_or.mpr ⟨hreturn, fun h => hfeed h.1⟩
        rw [hself, List.singleton_append, tokens?, Scan.extend?, if_neg hquote, if_neg hslash,
          if_neg hstays]
        simpa using ih (read ++ [c])
  have hextend : Scan.between.extend? '\'' = none := rfl
  have hbegin : Scan.begin? '\'' = some (.literal ['\'']) := rfl
  rw [all?, Text.quote, String.toList_ofList, tokens?, hextend, hbegin]
  simp [hliteral ['\''] value.toList, Scan.finish?]

end Token

end StepGraph.Expression
