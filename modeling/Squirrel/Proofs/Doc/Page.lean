import Mathlib.Data.List.DropRight
import Squirrel.Proofs.Doc.Laying

/-! The text on a page, and what stays on it. -/

namespace Squirrel

section Trimming

theorem trimEnd_append (front back : List Char) :
    trimEnd (front ++ back) = if (trimEnd back).isEmpty then trimEnd front else front ++ trimEnd back := by
  unfold trimEnd
  rw [List.reverse_append, List.dropWhile_append]
  split
  · next blank =>
    have empty : (back.reverse.dropWhile isTrailingBlank) = [] := List.isEmpty_iff.mp blank
    simp [empty]
  · next inked =>
    have full : (back.reverse.dropWhile isTrailingBlank) ≠ [] := by simpa using inked
    simp [full]

@[simp] theorem trimEnd_nil : trimEnd [] = [] := rfl

theorem trimEnd_concat (front : List Char) (c : Char) :
    trimEnd (front ++ [c]) = if isTrailingBlank c then trimEnd front else front ++ [c] := by
  unfold trimEnd
  rw [List.reverse_append, List.reverse_singleton, List.singleton_append, List.dropWhile_cons]
  split <;> simp

@[simp] theorem trimEnd_trimEnd (text : List Char) : trimEnd (trimEnd text) = trimEnd text := by
  unfold trimEnd
  rw [List.reverse_reverse]
  congr 1
  exact List.dropWhile_idempotent _ _

theorem prefix_trimEnd (text : List Char) : trimEnd text <+: text := by
  rw [← List.reverse_suffix]
  unfold trimEnd
  rw [List.reverse_reverse]
  exact List.dropWhile_suffix _

theorem infix_trimEnd {text page : List Char} (ended : trimEnd text = text) (shown : text <:+: page) :
    text <:+: trimEnd page := by
  obtain ⟨before, after, rfl⟩ := shown
  rw [trimEnd_append]
  split
  · rw [trimEnd_append, ended]
    split
    · next empty =>
      rw [List.isEmpty_iff.mp empty]
      exact List.nil_infix
    · exact ⟨before, [], by simp⟩
  · exact ⟨before, trimEnd after, rfl⟩

end Trimming

namespace PageStyle

variable {style : PageStyle}

theorem mem_indentation {level : Int} {c : Char} (member : c ∈ style.indentation level) :
    c ∈ style.indentUnit.toList := by
  obtain ⟨unit, isUnit, own⟩ := List.mem_flatten.mp member
  rwa [List.eq_of_mem_replicate isUnit] at own

theorem blank_indentation (indented : style.indentUnit.toList.all isTrailingBlank) (level : Int) :
    (style.indentation level).all isTrailingBlank :=
  List.all_eq_true.mpr fun c member => List.all_eq_true.mp indented c (mem_indentation member)

end PageStyle

namespace Page

variable (style : PageStyle) (page : Page)

theorem text_append (text : List Char) : (page.append style text).text = page.text ++ text := by
  unfold append
  split
  · next empty => rw [List.isEmpty_iff.mp empty, List.append_nil]
  split <;> simp [Page.text]

theorem text_write (text : List Char) :
    (page.write style text).text = page.text ++ page.squeeze text :=
  text_append style page _

theorem squeeze_of_head {text : List Char} (head : text.head? ≠ some ' ') :
    page.squeeze text = text := by
  unfold squeeze
  split
  · simp at head
  · rfl

variable {page} in
theorem mem_squeeze {text : List Char} {c : Char} (member : c ∈ page.squeeze text) : c ∈ text := by
  unfold squeeze at member
  split at member
  · split at member
    · exact List.mem_cons_of_mem _ member
    · exact member
  · exact member

theorem text_trim : page.trim.text = trimEnd page.text := by
  obtain ⟨pieces, column, inked⟩ := page
  simp only [trim, Page.text]
  induction pieces with
  | nil => rfl
  | cons piece pieces ih =>
    rw [trimPieces, List.reverse_cons, List.flatten_append, List.flatten_singleton, trimEnd_append]
    split
    · exact ih
    · simp

theorem text_newline (level : Int) :
    (page.newline style level).text = trimEnd page.text ++ '\n' :: style.indentation level := by
  rw [← text_trim]
  simp [newline, Page.text]

end Page

namespace Sheet

variable {style : PageStyle} {sheet : Sheet} {text : List Char}

theorem infix_write (shown : text <:+: sheet.page.text) (content : List Char) :
    text <:+: (sheet.page.write style content).text := by
  rw [Page.text_write]
  exact shown.trans (List.prefix_append _ _).isInfix

theorem infix_play (ended : trimEnd text = text) (shown : text <:+: sheet.page.text)
    (event : Event) : text <:+: (sheet.play style event).page.text := by
  cases event with
  | text content => exact infix_write shown _
  | later content => exact shown
  | newline level =>
    rw [play, Page.text_newline]
    exact (infix_trimEnd ended shown).trans (List.prefix_append _ _).isInfix
  | flush =>
    obtain ⟨page, waiting⟩ := sheet
    simp only [play]
    induction waiting generalizing page with
    | nil => exact shown
    | cons content waiting ih =>
      exact ih (page.write style content.toList) (@infix_write style ⟨page, []⟩ text shown _)

theorem infix_playAll (ended : trimEnd text = text) (shown : text <:+: sheet.page.text)
    (events : List Event) : text <:+: (sheet.playAll style events).page.text := by
  induction events generalizing sheet with
  | nil => exact shown
  | cons event events ih => exact ih (infix_play ended shown event)

theorem infix_of_written {content : String} {events : List Event}
    (head : content.toList.head? ≠ some ' ') (written : Event.text content ∈ events) :
    trimEnd content.toList <:+: (sheet.playAll style events).page.text := by
  induction events generalizing sheet with
  | nil => cases written
  | cons event events ih =>
    rw [playAll_cons]
    rcases List.mem_cons.mp written with rfl | later
    · refine infix_playAll (trimEnd_trimEnd _) ?_ events
      rw [play, Page.text_write, Page.squeeze_of_head _ head]
      exact (prefix_trimEnd _).isInfix.trans (List.suffix_append _ _).isInfix
    · exact ih later

end Sheet

end Squirrel
