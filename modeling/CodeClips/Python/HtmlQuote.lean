import CodeClips.Lib.ReplaceAll

/-!
# Quoting for HTML

`htmlquote` replaces the five special characters one after another, and `htmlunquote` the five
entities in the opposite order. `quoted cs` is the state in between, in which the characters `cs`
are quoted: each replacement adds one character to `cs` or takes it away, whatever the text
contains, since the `&` of an entity is quoted first and unquoted last.
-/

namespace CodeClips.HtmlQuote

open Replace (replaceAll Clear)

abbrev Str := List Char

def htmlquote (text : Str) : Str :=
  let text := replaceAll "&".toList "&amp;".toList text
  let text := replaceAll "<".toList "&lt;".toList text
  let text := replaceAll ">".toList "&gt;".toList text
  let text := replaceAll "'".toList "&#39;".toList text
  let text := replaceAll "\"".toList "&quot;".toList text
  text

def htmlunquote (text : Str) : Str :=
  let text := replaceAll "&quot;".toList "\"".toList text
  let text := replaceAll "&#39;".toList "'".toList text
  let text := replaceAll "&gt;".toList ">".toList text
  let text := replaceAll "&lt;".toList "<".toList text
  let text := replaceAll "&amp;".toList "&".toList text
  text

/-! ## Entities -/

/-- What follows the `&`. -/
def name : Char → Str
  | '&' => "amp;".toList
  | '<' => "lt;".toList
  | '>' => "gt;".toList
  | '\'' => "#39;".toList
  | '"' => "quot;".toList
  | _ => []

def entity (c : Char) : Str := '&' :: name c

/-- A character where `cs` are quoted. -/
def quoted (cs : List Char) (c : Char) : Str := if c ∈ cs then entity c else [c]

/-- Replaced last, and put back first. -/
def special : List Char := ['"', '\'', '>', '<', '&']

/-- Neither name goes on with the other, nor has a `&`. -/
def Apart (c d : Char) : Bool := '&' ∉ name d ∧ ¬ entity c <+: entity d ∧ ¬ entity d <+: entity c

section Steps
variable {c : Char} {cs : List Char} (text : Str)

theorem quoted_nil : text.flatMap (quoted []) = text := by
  have single : quoted [] = fun c => [c] := by
    funext c
    exact if_neg List.not_mem_nil
  rw [single, List.flatMap_singleton']

/-- Quoting one more character, which the entities do not contain. -/
theorem replaceAll_quote (fresh : c ∉ cs) (clean : cs.all fun d => c ∉ entity d) :
    replaceAll [c] (entity c) (text.flatMap (quoted cs)) = text.flatMap (quoted (c :: cs)) := by
  apply Replace.replaceAll_flatMap (List.cons_ne_nil c [])
  intro b _
  by_cases same : b = c
  · subst same
    exact .inl ⟨if_neg fresh, if_pos List.mem_cons_self⟩
  · refine .inr ⟨?_, Replace.clear_of_not_mem ?_⟩
    · simp only [quoted, List.mem_cons, same, false_or]
    · rw [quoted]
      split_ifs with inside
      · exact of_decide_eq_true (List.all_eq_true.mp clean b inside)
      · exact fun other => same (List.mem_singleton.mp other).symm

/-- Unquoting one character, as long as `&` is quoted. -/
theorem replaceAll_unquote (fresh : c ∉ cs) (ampersand : '&' ∈ c :: cs) (apart : cs.all fun d => Apart c d) :
    replaceAll (entity c) [c] (text.flatMap (quoted (c :: cs))) = text.flatMap (quoted cs) := by
  apply Replace.replaceAll_flatMap (List.cons_ne_nil '&' (name c))
  intro b _
  by_cases same : b = c
  · subst same
    exact .inl ⟨if_pos List.mem_cons_self, if_neg fresh⟩
  · have stays : quoted (c :: cs) b = quoted cs b := by simp only [quoted, List.mem_cons, same, false_or]
    refine .inr ⟨stays.symm, ?_⟩
    rw [stays, quoted]
    split_ifs with inside
    · obtain ⟨noAmpersand, differ, differ'⟩ := of_decide_eq_true (List.all_eq_true.mp apart b inside)
      exact Replace.clear_of_head noAmpersand differ differ' rfl
    · apply Replace.clear_of_not_mem
      intro here
      rw [List.mem_singleton] at here
      subst here
      exact (List.mem_cons.mp ampersand).elim same inside

end Steps

theorem htmlquote_eq (text : Str) : htmlquote text = text.flatMap (quoted special) := by
  change replaceAll ['"'] (entity '"') (replaceAll ['\''] (entity '\'') (replaceAll ['>'] (entity '>')
    (replaceAll ['<'] (entity '<') (replaceAll ['&'] (entity '&') text)))) = _
  have ampersand := replaceAll_quote (c := '&') text List.not_mem_nil (by decide)
  rw [quoted_nil] at ampersand
  rw [ampersand, replaceAll_quote text (by decide) (by decide), replaceAll_quote text (by decide) (by decide),
    replaceAll_quote text (by decide) (by decide), replaceAll_quote text (by decide) (by decide)]
  rfl

theorem htmlunquote_quoted (text : Str) : htmlunquote (text.flatMap (quoted special)) = text := by
  change replaceAll (entity '&') ['&'] (replaceAll (entity '<') ['<'] (replaceAll (entity '>') ['>']
    (replaceAll (entity '\'') ['\''] (replaceAll (entity '"') ['"'] (text.flatMap (quoted special)))))) = _
  rw [special, replaceAll_unquote text (by decide) (by decide) (by decide),
    replaceAll_unquote text (by decide) (by decide) (by decide), replaceAll_unquote text (by decide) (by decide) (by decide),
    replaceAll_unquote text (by decide) (by decide) (by decide), replaceAll_unquote text (by decide) (by decide) (by decide),
    quoted_nil]

/-- No entity has one of the characters that are quoted but `&`. -/
theorem not_mem_quoted {c : Char} (isSpecial : c ∈ special) (other : c ≠ '&') (b : Char) : c ∉ quoted special b := by
  have entities : special.all fun b => special.all fun c => c = '&' ∨ c ∉ entity b := by decide
  rw [quoted]
  split_ifs with inside
  · have clean := List.all_eq_true.mp (List.all_eq_true.mp entities b inside) c isSpecial
    exact (of_decide_eq_true clean).resolve_left other
  · intro here
    rw [List.mem_singleton] at here
    exact inside (here ▸ isSpecial)

/-- **Quoting** is undone by unquoting, and leaves no bracket and no quote, for every text. -/
theorem htmlquote_round_trip (text : Str) :
    htmlunquote (htmlquote text) = text ∧
    '<' ∉ htmlquote text ∧ '>' ∉ htmlquote text ∧ '\'' ∉ htmlquote text ∧ '"' ∉ htmlquote text := by
  have none {c : Char} (isSpecial : c ∈ special) (other : c ≠ '&') : c ∉ htmlquote text := by
    rw [htmlquote_eq, List.mem_flatMap]
    rintro ⟨b, -, here⟩
    exact not_mem_quoted isSpecial other b here
  refine ⟨?_, none ?_ ?_, none ?_ ?_, none ?_ ?_, none ?_ ?_⟩
  · rw [htmlquote_eq, htmlunquote_quoted]
  all_goals decide

/-- The text of an entity comes back as it is. -/
example : htmlquote "&lt;<".toList = "&amp;lt;&lt;".toList ∧ htmlunquote "&amp;lt;&lt;".toList = "&lt;<".toList := by decide

end CodeClips.HtmlQuote
