import SourceSurvey.Tree.Resolve

/-!
# Absolute paths

`Tree.key` is the path under which a file is remembered: its place without links if it is there,
and otherwise the absolute spelling of its path.
-/

namespace SourceSurvey
namespace Tree

/-- The absolute spelling of a path; nothing is looked up. Two leading slashes stay, and a slash at
the end too. -/
def spell (t : Tree) (p : Path) : Path :=
  let components := match p.components with
    | .here :: rest => rest
    | components => components
  let twoSlashes := match p.text.toList with
    | '/' :: '/' :: c :: _ => c != '/'
    | ['/', '/'] => true
    | _ => false
  let base : Path := if p.isAbsolute then ⟨if twoSlashes then "//" else "/"⟩ else pathOf t.current
  let names := components.filter (· ≠ .root)
  let full := names.foldl (fun q c => q.join ⟨c.text⟩) base
  if p.text.toList.getLast? = some '/' then full.join ⟨""⟩ else full

/-- The path under which a file is remembered. -/
def key (t : Tree) (p : Path) : Path :=
  match t.canonical p with
  | .ok q => q
  | .error _ => if p.text = "" then p else t.spell p

end Tree
end SourceSurvey
