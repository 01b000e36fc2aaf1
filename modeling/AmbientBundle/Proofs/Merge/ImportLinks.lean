import AmbientBundle.Proofs.Merge.Answers
import AmbientBundle.Proofs.Merge.Presence
/-!
What imports stand for in a merged chunk. The local of an import is shown as the root name of the
declaration that it means if its specifier is live, whatever the order in which the files are
inlined. An import that has to be taken from a file in progress, which imports it itself, may stay
unlinked.
-/
namespace AmbientBundle.Merge

open Names Syntax

variable {cx : Context} {included included' : SeenSet Url} {m : Merged} {warnings : List Warning}

/-- `import { imported as loc } from path`, with its only specifier. -/
def oneImport (imported loc path : String) : ImportDecl × ImportSpecifier :=
  (⟨[namedSpecifier imported loc], StrLit.made path, false, none⟩, namedSpecifier imported loc)

/-- `export type Y = X;` -/
def aliasOfX : Item := .exportDecl (.typeAlias (.made "Y") false [] (.ref ⟨"X", []⟩ []))

/-- `/a.d.ts` and `/b.d.ts` import from each other, and `/c.d.ts` imports the class of `/b.d.ts`
from `/a.d.ts`. -/
def handingOn : Context := .ofFiles
  [("/b.d.ts", [.importDecl (oneImport "A" "A" "/a.d.ts").1, .exportDecl (emptyClass "B")]),
    ("/a.d.ts", [.importDecl (oneImport "B" "B" "/b.d.ts").1, .exportDecl (emptyClass "A"),
      Exports.list [Exports.specifier "B" "B"]]),
    ("/c.d.ts", [.importDecl (oneImport "B" "X" "/a.d.ts").1, .exportDecl (emptyClass "B"),
      aliasOfX])]

theorem live_handingOn :
    LiveSpecifier handingOn ∅ (.ofPath "/c.d.ts") (oneImport "B" "X" "/a.d.ts") := by
  have hclosed : ∀ f ∈ [Url.ofPath "/a.d.ts", .ofPath "/b.d.ts"], ∀ g ∈ handingOn.linked f,
      g ∈ [Url.ofPath "/a.d.ts", .ofPath "/b.d.ts"] := by decide +kernel
  have hidle : ¬Relation.ReflTransGen handingOn.Links (.ofPath "/a.d.ts") (.ofPath "/c.d.ts") :=
    fun hl => absurd (Context.mem_of_leadsTo hclosed (by simp) hl) (by decide)
  have hb : handingOn.explicit? (.ofPath "/b.d.ts") "B" =
      some (.named "B" "B" none (some ⟨.ofPath "/b.d.ts", 0⟩)) := by decide +kernel
  have ha : handingOn.explicit? (.ofPath "/a.d.ts") "B" = some (.named "B" "B" none none) := by
    decide +kernel
  have hina : handingOn.inChunk? "/a.d.ts" (.ofPath "/c.d.ts") = some (.ofPath "/a.d.ts") := by
    decide +kernel
  have hinb : handingOn.inChunk? "/b.d.ts" (.ofPath "/a.d.ts") = some (.ofPath "/b.d.ts") := by
    decide +kernel
  have hspecifier : oneImport "B" "B" "/b.d.ts" ∈ handingOn.specifiers (.ofPath "/a.d.ts") := by
    decide +kernel
  intro target name hin hname
  obtain rfl := Option.some.inj (hina.symm.trans hin)
  obtain rfl := Option.some.inj (show some "B" = some name from hname)
  exact ⟨_, .linked ha (by decide +kernel) hidle hspecifier rfl hinb rfl
    (.declared hb (by decide +kernel) (by decide +kernel))⟩

/-- `B` of `/a.d.ts`, under the names on the way, is the class of `/b.d.ts`. -/
theorem means_of_steps {cx : Context} {f : Url} {x : String}
    (hclosed : cx.ClosedFor [.own f x, .exported (.ofPath "/a.d.ts") "B",
      .own (.ofPath "/a.d.ts") "B", .exported (.ofPath "/b.d.ts") "B",
      .own (.ofPath "/b.d.ts") "B"] (.ofPath "/b.d.ts") "B")
    (hx : .go (.exported (.ofPath "/a.d.ts") "B") ∈ cx.follow (.own f x))
    (ha : .go (.own (.ofPath "/a.d.ts") "B") ∈ cx.follow (.exported (.ofPath "/a.d.ts") "B"))
    (ha' : .go (.exported (.ofPath "/b.d.ts") "B") ∈ cx.follow (.own (.ofPath "/a.d.ts") "B"))
    (hb : .go (.own (.ofPath "/b.d.ts") "B") ∈ cx.follow (.exported (.ofPath "/b.d.ts") "B"))
    (hb' : .arrive (.decl (.ofPath "/b.d.ts") "B") ∈ cx.follow (.own (.ofPath "/b.d.ts") "B")) :
    cx.Means (.own f x) (.ofPath "/b.d.ts") "B" :=
  hclosed.means (by simp) (.next hx (.next ha (.next ha' (.next hb (.here hb')))))

/-- `/a.d.ts`, the entry, hands on the class of `/b.d.ts`, which takes it back from there. -/
def takingBack : Context := .ofFiles
  [("/b.d.ts", [.importDecl (oneImport "B" "X" "/a.d.ts").1, .exportDecl (emptyClass "B"),
      aliasOfX]),
    ("/a.d.ts", [.importDecl (oneImport "B" "B" "/b.d.ts").1,
      Exports.list [Exports.specifier "B" "B"]])]

/-- Whether a statement is a type alias for `X`. -/
def isAliasOfX : Item → Bool
  | .decl (.typeAlias _ _ _ (.ref name _)) => name.head == "X"
  | _ => false

end AmbientBundle.Merge
