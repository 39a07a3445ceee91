import LiquidsoapHighlight.Liquidsoap.Grammar

/-!
The rules of Liquidsoap pass all checks, so building a grammar from them gives the grammar itself.
-/

namespace LiquidsoapHighlight
namespace Liquidsoap

set_option maxRecDepth 10000 in
theorem addAll_definitions :
    Grammar.empty.addAll definitions = .ok (definitions.foldl Grammar.define .empty) := (rfl)

theorem foldl_define_definitions :
    definitions.foldl Grammar.define .empty = grammar := by
  apply congrArg Grammar.mk
  funext mode
  cases mode <;> rfl

set_option maxRecDepth 10000 in
theorem checkTargets_grammar : grammar.checkTargets = .ok () := (rfl)

theorem build_definitions : Grammar.build definitions = .ok grammar := by
  unfold Grammar.build
  rw [addAll_definitions, foldl_define_definitions]
  simp only [bind, Except.bind, checkTargets_grammar]
  rfl

end Liquidsoap
end LiquidsoapHighlight
