import AmbientBundle.Proofs.Merge.ExportSurface
/-!
What an exported name of a chunk is bound to. A name may be exported by several entry files, and by
several statements of one; of these exports one is kept. Where all of them are one declaration, the
chunk exports that declaration under the name.
-/
namespace AmbientBundle.Merge

open Syntax

namespace Context

/-- What a file exports under a name: what one of its statements exports, or what is among its
exports and those of its stars. There is no reference to a value or to something outside. -/
inductive Refers (cx : Context) (f : Url) (name : String) : Option Reference → Prop where
  | own {i : Item} {x : String} (hi : i ∈ cx.statements f) (h : (name, .here x) ∈ i.ownExports) :
      Refers cx f name (some (.own f x))
  | value {i : Item} {b : Bound} (hi : i ∈ cx.statements f) (h : (name, b) ∈ i.ownExports)
      (hb : ∀ x, b ≠ .here x) : Refers cx f name none
  | taken {d : ExportList} {src : StrLit} {orig : ExportName} {exported : Option ExportName}
      {typeOnly : Bool} {target : Url} (hi : .exportList d ∈ cx.statements f)
      (hsrc : d.src = some src) (hsp : .named orig exported typeOnly ∈ d.specifiers)
      (hname : (exported.getD orig).text = name) (hin : cx.inChunk? src.value f = some target) :
      Refers cx f name (some (.exported target orig.text))
  | space {d : ExportList} {src : StrLit} {x : ExportName} (hi : .exportList d ∈ cx.statements f)
      (hsrc : d.src = some src) (hsp : .all x ∈ d.specifiers) (hname : x.text = name) :
      Refers cx f name none
  | outer {d : ExportList} {src : StrLit} {sp : ExportSpecifier}
      (hi : .exportList d ∈ cx.statements f) (hsrc : d.src = some src) (hsp : sp ∈ d.specifiers)
      (hname : exportedName sp = name) (hout : cx.inChunk? src.value f = none) :
      Refers cx f name none
  | offered {g : Url} (h : cx.Offers f true g name) : Refers cx f name (some (.exported g name))

end Context

/-- The file's name has a final name for sure where the file is inlined at the root. -/
def Found (cx : Context) (earlier : SeenSet Url) (f : Url) (x : String) : Prop :=
  cx.Declares f x ∨ ∃ e ∈ cx.specifiers f, e.2.loc = x ∧ LiveSpecifier cx earlier f e

/-- Whatever the entry files export under the name is the declaration of `k` in `d`, and has a
final name for sure. -/
structure ExportsOnly (cx : Context) (earlier : SeenSet Url) (name : String) (d : Url)
    (k : String) : Prop where
  means : ∀ f ∈ cx.entryFiles, ∀ a, cx.Refers f name a → ∃ b, a = some b ∧ cx.Means b d k
  found : ∀ f ∈ cx.entryFiles, earlier.contains f = false → ∀ x,
    cx.Refers f name (some (.own f x)) → Found cx earlier f x

section Bound

variable {cx : Context} {earlier : SeenSet Url} {env : Environment} {f d : Url} {i : Item}
  {name k : String} {b : Bound}

/-- A statement that exports nothing but the declaration binds the name to its final name. -/
theorem Exposes.bound (h : Exposes cx env f i name b) (hi : i ∈ cx.statements f)
    (hmeans : ∀ a, cx.Refers f name a → ∃ b, a = some b ∧ cx.Means b d k)
    (hown : ∀ x, cx.Refers f name (some (.own f x)) →
      ∃ v, env.lookup f x = some v ∧ Fits cx env (.own f x) v)
    (halias : ¬TakenAlias cx env f name) : ∃ v, b = .here v ∧ env.lookup d k = some v := by
  have hfits {a : Reference} {v : String} (ha : cx.Refers f name (some a)) (hv : Fits cx env a v) :
      env.lookup d k = some v := by
    obtain ⟨a', he, hm⟩ := hmeans _ ha
    cases he
    exact hv.fits d k hm
  have hlocal {x : String} (hx : cx.Refers f name (some (.own f x))) :
      env.lookup d k = some (Rename.ofEnvironment env f x) := by
    obtain ⟨v, hv, hfit⟩ := hown x hx
    rw [hfits hx hfit, Rename.ofEnvironment, hv, Option.getD_some]
  have hnone (ha : cx.Refers f name none) : False := by
    obtain ⟨_, he, _⟩ := hmeans _ ha
    cases he
  cases h with
  | @own _ e he hne =>
    obtain ⟨name, b⟩ := e
    by_cases hb : ∃ x, b = .here x
    · obtain ⟨x, rfl⟩ := hb
      exact ⟨_, rfl, hlocal (.own hi he)⟩
    · exact (hnone (.value hi he (fun x hx => hb ⟨x, hx⟩))).elim
  | @aliased d' he =>
    by_cases hsame : Rename.ofEnvironment env f d'.id.name = d'.id.name
    · refine ⟨_, rfl, hlocal (.own hi ?_)⟩
      simp [Item.ownExports, Item.directExports, he, hsame, Ident.bound]
    · exact absurd ⟨d', hi, he, rfl, hsame⟩ halias
  | taken hsrc hsp hin hv => exact ⟨_, rfl, hfits (.taken hi hsrc hsp rfl hin) hv⟩
  | space hsrc hsp => exact (hnone (.space hi hsrc hsp rfl)).elim
  | outer hsrc hsp hout => exact (hnone (.outer hi hsrc hsp rfl hout)).elim
  | @star _ target g _ v hin hg =>
    have hstar : cx.Stars f target := ⟨_, Context.mem_exports_of_star hi, hin⟩
    have hoffers : cx.Offers f true g name :=
      ⟨.head hstar hg.within, hg.lists, fun he => absurd (hg.default he).2 (by simp)⟩
    exact ⟨v, rfl, hfits (.offered hoffers) hg.fits⟩

/-- Entries that export nothing but the declaration under the name bind it to its final name. -/
theorem Entries.bound {files : List Url} {is : List Item} (h : Entries cx earlier env files is)
    (hmeans : ∀ f ∈ files, ∀ a, cx.Refers f name a → ∃ b, a = some b ∧ cx.Means b d k)
    (hown : ∀ f ∈ files, earlier.contains f = false → ∀ x, cx.Refers f name (some (.own f x)) →
      ∃ v, env.lookup f x = some v ∧ Fits cx env (.own f x) v)
    (halias : ∀ f ∈ files, ¬TakenAlias cx env f name)
    (hb : (name, b) ∈ directExportsOf is ∨ (name, b) ∈ listExportsOf is) :
    ∃ v, b = .here v ∧ env.lookup d k = some v := by
  induction h with
  | nil => simp [directExportsOf, listExportsOf] at hb
  | @printed files is f parts _ hnew _ hparts ih =>
    rw [directExportsOf_append, listExportsOf_append, List.mem_append, List.mem_append,
      or_or_or_comm] at hb
    rcases hb with hb | hb
    · exact ih (fun g hg => hmeans g (by simp [hg])) (fun g hg => hown g (by simp [hg]))
        (fun g hg => halias g (by simp [hg])) hb
    · obtain ⟨part, hpart, hb⟩ := mem_exports_flatten.1 hb
      obtain ⟨i, hi, hexposure⟩ := forall₂_mem_right hparts hpart
      exact (hexposure.sound _ hb).bound hi (hmeans f (by simp)) (hown f (by simp) hnew)
        (halias f (by simp))
  | @again files is js f _ _ hdirect hsound _ ih =>
    rw [directExportsOf_append, listExportsOf_append, hdirect, List.append_nil, List.mem_append,
      ← or_assoc] at hb
    rcases hb with hb | hb
    · exact ih (fun g hg => hmeans g (by simp [hg])) (fun g hg => hown g (by simp [hg]))
        (fun g hg => halias g (by simp [hg])) hb
    · obtain ⟨g, v, hv, hg⟩ := hsound _ hb
      obtain ⟨a, he, hm⟩ := hmeans f (by simp) _ (.offered hg.toOffers)
      cases he
      exact ⟨v, hv, hg.fits.fits d k hm⟩

end Bound

section Merged

variable {cx : Context} {included included' : SeenSet Url} {m : Merged} {warnings : List Warning}
  {f g d : Url} {name k : String}

/-- A chunk exports the declaration that its entry files export under a name. -/
theorem export_bound (h : mergeChunk? cx included = some (m, included', warnings))
    (hf : f ∈ cx.entryFiles) (hg : cx.Offers f true g name) (hl : ¬Dead cx included f true name)
    (honly : ExportsOnly cx included name d k)
    (hplain : ∀ f ∈ cx.entryFiles, ¬TakenAlias cx m.names f name ∧ KeepsAlias cx m.names f name) :
    ∃ v, (name, .here v) ∈ m.exports ∧ (∀ b, (name, b) ∈ m.exports → b = .here v) ∧
      Rename.ofEnvironment m.names d k = v ∧ (.file d, v) ∈ m.rootBindings := by
  obtain ⟨is, his, hexports⟩ := entries_of_mergeChunk? h
  obtain ⟨s, hdone, hm, hs⟩ := entriesDone_of_mergeChunk? h
  have hnames : m.names = s.root.env := by rw [hm]; rfl
  have hlinked := hdone.atRoot.linked
  have hown : ∀ f ∈ cx.entryFiles, included.contains f = false → ∀ x,
      cx.Refers f name (some (.own f x)) →
        ∃ v, m.names.lookup f x = some v ∧ Fits cx m.names (.own f x) v := by
    intro f hf hnew x hx
    rw [hnames]
    have hsome : (s.root.env.lookup f x).isSome := by
      rcases honly.found f hf hnew x hx with hd | ⟨e, he, rfl, hlive⟩
      · exact hlinked.bound f x (hdone.included f hf) hnew hd
      · exact hlinked.done f (hdone.included f hf) hnew (by simp) e he hlive
    obtain ⟨v, hv⟩ := Option.isSome_iff_exists.1 hsome
    exact ⟨v, hv, hlinked.sound f x v hv⟩
  have hbound (b : Bound) (hb : (name, b) ∈ m.exports) :
      ∃ v, b = .here v ∧ m.names.lookup d k = some v := by
    refine his.bound honly.means hown (fun f hf => (hplain f hf).1) ?_
    cases (hexports _).1 hb with
    | direct he => exact Or.inl he
    | listed _ he => exact Or.inr (mem_of_firstExport? he).1
  obtain ⟨b, hb⟩ := exists_stays (his.offered hf (hplain f hf).2 hg hl)
  have hb := (hexports _).2 hb
  obtain ⟨v, rfl, hv⟩ := hbound b hb
  have hρ : Rename.ofEnvironment m.names d k = v := by
    rw [Rename.ofEnvironment, hv, Option.getD_some]
  refine ⟨v, hb, fun b' hb' => ?_, hρ, ?_⟩
  · obtain ⟨v', rfl, hv'⟩ := hbound b' hb'
    rw [hv] at hv'
    rw [Option.some.inj hv']
  · have hlive : ∃ τ, Live cx included Idle g name τ := by
      by_contra hnone
      exact hl ⟨g, hg, hnone⟩
    obtain ⟨τ, hlive⟩ := hlive
    obtain ⟨a, he, hmeans⟩ := honly.means f hf _ (.offered hg)
    cases he
    obtain ⟨hdnew, hdeclares⟩ := hlive.declares (hmeans.only τ hlive.leads)
    have hd : included'.contains d = true :=
      hs ▸ hdone.atRoot.rooted.included d k v (hnames ▸ hv)
    obtain ⟨id, hid, rfl⟩ := List.mem_map.1 hdeclares
    obtain ⟨i, hi, hid⟩ := List.mem_flatMap.1 hid
    exact hρ ▸ declared_mem_rootBindings h hd hdnew hi hid

end Merged

end AmbientBundle.Merge
