import Squirrel.Proofs.Doc.Page
import Squirrel.Proofs.Safety

/-! What formatting a text gives. -/

namespace Squirrel

def layoutEvents (style : PageStyle) (source : List Char) (tree : Tree) : List Event :=
  (Layout.document source tree).laid style .broken 0 (fun _ => true) ⟨.blank, []⟩ ++ [.flush]

def printedText (style : PageStyle) (source : List Char) (tree : Tree) : List Char :=
  trimEnd ((Sheet.mk .blank []).playAll style (layoutEvents style source tree)).page.text

theorem format_eq [NestingLimit] (options : FormatOptions) (source : String) :
    format options source =
      if layoutFits source (parse source).tree then
        options.finish
          (String.ofList (printedText options.pageStyle source.toList (parse source).tree))
      else source := by
  have known := Layout.known_document source.toList (shaped_parse source) (ordered_parse source)
  have ok := formatParsed_ok options source (shaped_parse source) (ordered_parse source)
  rw [format]
  unfold formatParsed? at ok
  split
  · next fits =>
    rw [if_pos fits, formatTree?, Doc.printFrom, known.1] at ok
    have same := Except.ok.inj ok
    rw [← same, Doc.printOn_eq_playAll _ _ known.2]
    dsimp only
    rw [Page.text_trim]
    rfl
  · next deep =>
    rw [if_neg deep] at ok
    exact (Except.ok.inj ok).symm

theorem toList_finish (options : FormatOptions) (text : String) :
    ∃ ending, (ending = [] ∨ ending = ['\n']) ∧
      (options.finish text).toList = text.toList ++ ending := by
  unfold FormatOptions.finish
  split
  · exact ⟨['\n'], .inr rfl, by simp⟩
  · exact ⟨[], .inl rfl, by simp⟩

end Squirrel
