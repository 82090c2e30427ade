import Mathlib.Data.List.Perm.Basic
import PluginHost.Proofs.Discovery.Redescription
import PluginHost.Proofs.Extension.Resolution
import PluginHost.Proofs.Extension.Validation

/-!
# The order of plugins

The built-in loader reads what a plugin declares from the plugin's own files, so the order of
plugins has no part in what is declared.  It only matters to imports: an order succeeds exactly
if every extension imports what it exports itself or what a plugin before it exports, and all
orders that succeed find the same (`Discovery.run_perm`).

The statement is carried through a discovery by `Discovery.Holds`: what was found so far are the
declarations of the plugins so far.  `Discovery.visit_ok_iff` and `Discovery.Holds.visit` are the
case of one plugin.  All this goes for any loaders that do not look at what was found
(`Discovery.Steady`).
-/

namespace PluginHost

/-- What is found does not count for what the built-in loader declares. -/
theorem Loader.Native.declare_context (request : Request) (context : ResolutionContext) :
    declare { request with context } = declare request := rfl

namespace Extension

/-- With some extensions found, an extension keeps all rules exactly if it does so apart from its
imports, and imports what it or one of them exports. -/
theorem problems_ofSet_eq_nil_iff {e : Extension} {s : ExtensionSet} :
    e.problems (.ofSet s) = [] ↔ e.withoutImports.problems ∅ = [] ∧ ∀ type ∈ e.importedTypes,
      type ∈ e.exportedTypes ∨ ∃ x ∈ s.toList, type ∈ x.exportedTypes := by
  simp only [problems_eq_nil_iff, @wellFormed_iff_withoutImports e (.ofSet s),
    ← ResolutionContext.isSome_resolveType_ofSet, Option.isSome_iff_exists]

end Extension

namespace Discovery

variable {d : Discovery} {p q : Plugin} {before rest plugins : List Plugin} {f g : Findings}
  {e x : Extension}

/-! ### What a plugin declares -/

/-- Whether the loader that serves a plugin declares an extension for it if nothing was found
before. -/
def Declares (d : Discovery) (p : Plugin) (e : Extension) : Prop :=
  ∃ loader attributes, d.Serves p loader attributes ∧
    (loader.declare { files := p.files, context := ∅, attributes }).outcome = .ok e

/-- Whether what is found does not count for what a plugin declares. -/
def Steady (d : Discovery) (p : Plugin) : Prop :=
  ∀ loader attributes context, d.Serves p loader attributes →
    (loader.declare { files := p.files, context, attributes }).outcome =
      (loader.declare { files := p.files, context := ∅, attributes }).outcome

/-- Whether two plugins declare no extensions of the same name. -/
def Apart (d : Discovery) (p q : Plugin) : Prop :=
  ∀ e x, d.Declares p e → d.Declares q x → e.name ≠ x.name

theorem Apart.symm (h : d.Apart p q) : d.Apart q p := fun e x he hx => (h x e hx he).symm

theorem Serves.unique {loader loader' : Loader} {attributes attributes' : Attributes}
    (h : d.Serves p loader attributes) (h' : d.Serves p loader' attributes') :
    loader = loader' ∧ attributes = attributes' := by
  cases h with
  | describer hd hr =>
    cases h' with
    | describer hd' hr' =>
      obtain rfl := Option.some.inj (hd.symm.trans hd')
      exact ⟨Option.some.inj (hr.symm.trans hr'), rfl⟩
    | manifest hd' => exact nomatch hd.symm.trans hd'
  | manifest hd hl hm ha =>
    cases h' with
    | describer hd' => exact nomatch hd.symm.trans hd'
    | manifest _ hl' hm' ha' =>
      obtain rfl := Option.some.inj (hl.symm.trans hl')
      obtain rfl := Except.ok.inj (hm.symm.trans hm')
      exact ⟨rfl, Except.ok.inj (ha.symm.trans ha')⟩

theorem Declares.unique (he : d.Declares p e) (hx : d.Declares p x) : e = x := by
  obtain ⟨loader, attributes, hs, he⟩ := he
  obtain ⟨loader', attributes', hs', hx⟩ := hx
  obtain ⟨rfl, rfl⟩ := hs.unique hs'
  exact Except.ok.inj (he.symm.trans hx)

theorem Declares.offers (h : d.Declares p e) : d.offers p = true := by
  obtain ⟨loader, attributes, hs, -⟩ := h
  exact offers_of_serves hs

theorem declares_of_performed {l : Load} (hl : l.Performed d) (hs : d.Steady l.plugin) :
    d.Declares l.plugin l.extension :=
  ⟨l.loader, l.attributes, hl.served, (hs _ _ _ hl.served).symm.trans hl.declared⟩

/-- A declaration that keeps the rules is what an attempt to load ends with. -/
theorem Declares.exists_attempt (he : d.Declares p e) (hs : d.Steady p) {found : ExtensionSet}
    (hv : e.problems (.ofSet found) = []) :
    ∃ load, d.attempt? p found = some load ∧ load.outcome = .ok e := by
  obtain ⟨loader, attributes, hserves, hdeclared⟩ := he
  exact ⟨_, attempt?_of_serves hserves found,
    Loader.outcome_load_eq_ok_iff.2 ⟨(hs _ _ _ hserves).trans hdeclared, hv⟩⟩

/-! ### One plugin -/

/-- Whether what was found are the declarations of a list of plugins. -/
def Holds (d : Discovery) (plugins : List Plugin) (f : Findings) : Prop :=
  ∀ e, e ∈ f.extensions.toList ↔ ∃ p ∈ plugins, d.Declares p e

/-- Whether the types that an extension imports are exported by itself or by a plugin of a
list. -/
def Supplied (d : Discovery) (plugins : List Plugin) (e : Extension) : Prop :=
  ∀ type ∈ e.importedTypes, type ∈ e.exportedTypes ∨
    ∃ q ∈ plugins, ∃ x, d.Declares q x ∧ type ∈ x.exportedTypes

/-- Whether a plugin has no extension, or declares one that is valid behind a list of plugins. -/
def Admits (d : Discovery) (plugins : List Plugin) (p : Plugin) : Prop :=
  d.offers p = true →
    ∃ e, d.Declares p e ∧ e.withoutImports.problems ∅ = [] ∧ d.Supplied plugins e

theorem holds_nil : d.Holds [] {} := fun e => by simp [ExtensionSet.mem_toList]

theorem Holds.problems_eq_nil_iff (h : d.Holds before f) :
    e.problems (.ofSet f.extensions) = [] ↔
      e.withoutImports.problems ∅ = [] ∧ d.Supplied before e := by
  rw [Extension.problems_ofSet_eq_nil_iff]
  refine and_congr_right fun _ => forall₂_congr fun type _ => or_congr_right ?_
  constructor
  · rintro ⟨x, hx, ht⟩
    obtain ⟨q, hq, hqx⟩ := (h x).1 hx
    exact ⟨q, hq, x, hqx, ht⟩
  · rintro ⟨q, hq, x, hqx, ht⟩
    exact ⟨x, (h x).2 ⟨q, hq, hqx⟩, ht⟩

/-- A visit succeeds exactly if the plugin is admitted behind those before it. -/
theorem visit_ok_iff (h : d.Holds before f) (hs : d.Steady p) :
    (∃ g, (d.visit f p).outcome = .ok g) ↔ d.Admits before p := by
  constructor
  · rintro ⟨g, hg⟩ ho
    rcases visit_cases hg with ⟨hn, -⟩ | ⟨l, rfl, hf, hl, -, -⟩
    · exact absurd ho (by simp [hn])
    · have hv : l.extension.problems (.ofSet f.extensions) = [] := hf ▸ hl.valid
      exact ⟨l.extension, declares_of_performed hl hs, h.problems_eq_nil_iff.1 hv⟩
  · intro hp
    cases ho : d.offers p with
    | false => exact ⟨_, (visit_of_not_offers ho).1⟩
    | true =>
      obtain ⟨e, he, hv⟩ := hp ho
      obtain ⟨load, ha, hl⟩ := he.exists_attempt hs (h.problems_eq_nil_iff.2 hv)
      exact ⟨_, visit_of_attempt_ok ha hl⟩

theorem Holds.visit (h : d.Holds before f) (hs : d.Steady p) (ha : ∀ q ∈ before, d.Apart q p)
    (hg : (d.visit f p).outcome = .ok g) : d.Holds (before ++ [p]) g := by
  intro e
  have hsplit : (∃ q ∈ before ++ [p], d.Declares q e) ↔
      e ∈ f.extensions.toList ∨ d.Declares p e := by
    rw [h e]
    simp [or_and_right, exists_or]
  rw [hsplit]
  rcases visit_cases hg with ⟨hn, rfl, -⟩ | ⟨l, rfl, hf, hl, rfl, -⟩
  · have hp : ¬ d.Declares p e := fun he => by simp [he.offers] at hn
    exact (or_iff_left hp).symm
  · have hd := declares_of_performed hl hs
    -- the name is free, for those before declare other names
    have hfree : ∀ x ∈ f.extensions.toList, x.name ≠ l.extension.name := fun x hx => by
      obtain ⟨q, hq, hqx⟩ := (h x).1 hx
      exact ha q hq x l.extension hqx hd
    have hp : d.Declares l.plugin e ↔ e = l.extension :=
      ⟨fun he => he.unique hd, fun he => he ▸ hd⟩
    rw [hp]
    exact ExtensionSet.mem_toList_insert hfree

/-! ### A list of plugins -/

theorem apart_of_pairwise (h : (before ++ p :: rest).Pairwise d.Apart) :
    ∀ q ∈ before, d.Apart q p :=
  fun q hq => (List.pairwise_append.1 h).2.2 q hq p List.mem_cons_self

theorem Holds.visitEach (h : d.Holds before f) (hs : ∀ p ∈ rest, d.Steady p)
    (ha : (before ++ rest).Pairwise d.Apart) (hg : (d.visitEach f rest).outcome = .ok g) :
    d.Holds (before ++ rest) g := by
  induction rest generalizing before f with
  | nil =>
    obtain rfl : f = g := Except.ok.inj hg
    rwa [List.append_nil]
  | cons p rest ih =>
    obtain ⟨f', hf, hg⟩ := Traced.outcome_bind_eq_ok_iff.1 hg
    have hp := apart_of_pairwise ha
    rw [List.append_cons] at ha ⊢
    exact ih (h.visit (hs p List.mem_cons_self) hp hf)
      (fun q hq => hs q (List.mem_cons_of_mem _ hq)) ha hg

/-- A list of plugins succeeds exactly if each of them is admitted behind those before it. -/
theorem visitEach_ok_iff (h : d.Holds before f) (hs : ∀ p ∈ rest, d.Steady p)
    (ha : (before ++ rest).Pairwise d.Apart) :
    (∃ g, (d.visitEach f rest).outcome = .ok g) ↔
      ∀ first p last, rest = first ++ p :: last → d.Admits (before ++ first) p := by
  induction rest generalizing before f with
  | nil => exact ⟨fun _ first p last he => by simp at he, fun _ => ⟨f, rfl⟩⟩
  | cons p rest ih =>
    have hp := apart_of_pairwise ha
    have hsp := hs p List.mem_cons_self
    have hsr : ∀ q ∈ rest, d.Steady q := fun q hq => hs q (List.mem_cons_of_mem _ hq)
    rw [List.append_cons] at ha
    constructor
    · rintro ⟨g, hg⟩ first q last he
      obtain ⟨f', hf, hg⟩ := Traced.outcome_bind_eq_ok_iff.1 hg
      rcases List.cons_eq_append_iff.1 he with ⟨rfl, he⟩ | ⟨first', rfl, rfl⟩
      · obtain ⟨rfl, rfl⟩ := List.cons.inj he
        rw [List.append_nil]
        exact (visit_ok_iff h hsp).1 ⟨f', hf⟩
      · have := (ih (h.visit hsp hp hf) hsr ha).1 ⟨g, hg⟩ first' q last rfl
        rwa [List.append_assoc] at this
    · intro hadmits
      have hpa : d.Admits before p := by simpa using hadmits [] p rest rfl
      obtain ⟨f', hf⟩ := (visit_ok_iff h hsp).2 hpa
      obtain ⟨g, hg⟩ := (ih (h.visit hsp hp hf) hsr ha).2 fun first q last he => by
        have := hadmits (p :: first) q last (by rw [he, List.cons_append])
        rwa [List.append_cons] at this
      exact ⟨g, (Traced.outcome_bind_of_ok _ hf).trans hg⟩

theorem Holds.extensions_eq {order order' : List Plugin} (h : d.Holds order f)
    (h' : d.Holds order' g) (hp : order.Perm order') : f.extensions = g.extensions :=
  ExtensionSet.ext_toList fun e => by
    rw [h e, h' e]
    exact exists_congr fun p => and_congr_left' hp.mem_iff

/-- All plugins are admitted behind those before them exactly if each declares an extension that
is valid apart from its imports, and has its imports supplied by those before it. -/
theorem forall_admits_iff {order : List Plugin} :
    (∀ before p after, order = before ++ p :: after → d.Admits before p) ↔
      (∀ p ∈ order, d.offers p = true →
        ∃ e, d.Declares p e ∧ e.withoutImports.problems ∅ = []) ∧
      ∀ before p after e, order = before ++ p :: after → d.Declares p e →
        d.Supplied before e := by
  constructor
  · intro h
    refine ⟨fun p hp ho => ?_, fun before p after e hsplit he => ?_⟩
    · obtain ⟨before, after, hsplit⟩ := List.append_of_mem hp
      obtain ⟨e, he, hv, -⟩ := h before p after hsplit ho
      exact ⟨e, he, hv⟩
    · obtain ⟨x, hx, -, hi⟩ := h before p after hsplit he.offers
      rwa [he.unique hx]
  · rintro ⟨hvalid, hsupplied⟩ before p after hsplit ho
    obtain ⟨e, he, hv⟩ := hvalid p (by simp [hsplit]) ho
    exact ⟨e, he, hv, hsupplied before p after e hsplit he⟩

/-! ### Plugins of the built-in loader -/

/-- Whether a plugin has a describer that leads to the built-in loader, or for want of a
describer a manifest that the built-in loader serves, or no extension. -/
def ServedNatively (d : Discovery) (p : Plugin) : Prop :=
  match Decision.ofPlugin d.manifestPath p with
  | .describer describer => d.repository.find? describer.id = some .native
  | .manifest _ => d.adapter.builtin = .native
  | .nothing => True

theorem ServedNatively.steady (h : d.ServedNatively p) : d.Steady p := by
  intro loader attributes context hs
  have hl : loader = .native := by
    cases hs with
    | describer hd hr =>
      simp only [ServedNatively, Decision.ofPlugin, hd] at h
      exact Option.some.inj (hr.symm.trans h)
    | manifest hd hl hm ha =>
      simpa only [ServedNatively, Decision.ofPlugin, hd, hl] using h
  rw [hl]
  exact congrArg Traced.outcome
    (Loader.Native.declare_context { files := p.files, context := ∅, attributes } context)

/-- **The order of plugins decides on imports, and on nothing else.**  Let all plugins of a list
that have an extension be served by the built-in loader, and declare extensions of distinct
names.  An order of the plugins is discovered exactly if every declaration can be read and is
valid apart from its imports, and every imported type is exported by the extension itself or by
that of a plugin before it.  All orders that are discovered end in the same set of extensions,
and so in contexts of the same fingerprint. -/
theorem run_perm (hs : ∀ p ∈ plugins, d.ServedNatively p) (ha : plugins.Pairwise d.Apart) :
    (∀ order : List Plugin, order.Perm plugins →
      ((∃ f, (d.run order).outcome = .ok f) ↔
        (∀ p ∈ plugins, d.offers p = true →
          ∃ e, d.Declares p e ∧ e.withoutImports.problems ∅ = []) ∧
        ∀ before p after e, order = before ++ p :: after → d.Declares p e →
          ∀ type ∈ e.importedTypes, type ∈ e.exportedTypes ∨
            ∃ q ∈ before, ∃ x, d.Declares q x ∧ type ∈ x.exportedTypes)) ∧
    ∀ (order order' : List Plugin) f g, order.Perm plugins → order'.Perm plugins →
      (d.run order).outcome = .ok f → (d.run order').outcome = .ok g →
      f.extensions = g.extensions ∧
        (ResolutionContext.ofSet f.extensions).fingerprint =
          (ResolutionContext.ofSet g.extensions).fingerprint := by
  have hsteady : ∀ {order : List Plugin}, order.Perm plugins → ∀ p ∈ order, d.Steady p :=
    fun hp p hm => (hs p (hp.mem_iff.1 hm)).steady
  have hapart : ∀ {order : List Plugin}, order.Perm plugins → order.Pairwise d.Apart :=
    fun hp => (hp.pairwise_iff fun h => h.symm).2 ha
  constructor
  · intro order hp
    rw [outcome_run, visitEach_ok_iff holds_nil (hsteady hp) (hapart hp)]
    simp only [List.nil_append, forall_admits_iff, hp.mem_iff, Supplied]
  · intro order order' f g hp hp' hf hg
    rw [outcome_run] at hf hg
    have hsame : f.extensions = g.extensions :=
      (holds_nil.visitEach (hsteady hp) (hapart hp) hf).extensions_eq
        (holds_nil.visitEach (hsteady hp') (hapart hp') hg) (hp.trans hp'.symm)
    exact ⟨hsame, by rw [hsame]⟩

/-- An extension that imports a type. -/
def authExtension : Extension :=
  { name := "Auth", version := "1.0", importedTypes := .ofList ["Request"] }

/-- A plugin with a describer that asks for its declaration. -/
def authPlugin : Plugin where
  descriptor := { name := "auth", describer := some (nativeDescriber "Auth" "1.0") }
  files := shipping "auth"
    [("Auth.extension.json", .object
        [("importedTypes", .string "Request"), ("name", .string "Auth")])]

/-- The plugin that exports comes first in every order that succeeds. -/
theorem run_perm_of_auth :
    ((∀ p ∈ [httpPlugin, authPlugin], natively.ServedNatively p) ∧
      [httpPlugin, authPlugin].Pairwise natively.Apart) ∧
      (∃ f, (natively.run [httpPlugin, authPlugin]).outcome = .ok f) ∧
      ¬ ∃ f, (natively.run [authPlugin, httpPlugin]).outcome = .ok f := by
  have hauth : natively.Declares authPlugin authExtension :=
    ⟨.native, _, .describer rfl rfl, by decide +kernel⟩
  have hhttp : natively.Declares httpPlugin httpExtension :=
    ⟨.native, _, httpPlugin_documents.serves, by decide +kernel⟩
  have hs : ∀ p ∈ [httpPlugin, authPlugin], natively.ServedNatively p := by
    refine List.forall_mem_cons.2 ⟨?_, List.forall_mem_singleton.2 rfl⟩
    obtain ⟨hd, location, m, hl, -⟩ := httpPlugin_documents
    simp only [ServedNatively, Decision.ofPlugin, hd, hl]
    rfl
  have ha : [httpPlugin, authPlugin].Pairwise natively.Apart := by
    refine List.pairwise_pair.2 fun e x he hx => ?_
    rw [he.unique hhttp, hx.unique hauth]
    decide
  obtain ⟨hiff, -⟩ := run_perm hs ha
  refine ⟨⟨hs, ha⟩, (hiff _ (.refl _)).2 ⟨?_, ?_⟩, fun hrun => ?_⟩
  · exact List.forall_mem_cons.2 ⟨fun _ => ⟨_, hhttp, by decide⟩,
      List.forall_mem_singleton.2 fun _ => ⟨_, hauth, by decide⟩⟩
  · intro before p after e hsplit he type ht
    rcases List.cons_eq_append_iff.1 hsplit with ⟨rfl, hfirst⟩ | ⟨others, rfl, hothers⟩
    · obtain ⟨rfl, rfl⟩ := List.cons.inj hfirst
      rw [he.unique hhttp] at ht
      exact absurd ht List.not_mem_nil
    · obtain ⟨rfl, rfl, rfl⟩ : others = [] ∧ p = authPlugin ∧ after = [] := by
        simpa [List.singleton_eq_append_iff] using hothers
      rw [he.unique hauth] at ht
      obtain rfl : type = "Request" := List.mem_singleton.1 (NameSet.mem_ofList.1 ht)
      exact .inr ⟨httpPlugin, by simp, httpExtension, hhttp, by decide⟩
  · obtain ⟨-, himports⟩ := (hiff _ (List.Perm.swap _ _ _)).1 hrun
    have := himports [] authPlugin [httpPlugin] authExtension rfl hauth "Request" (by decide)
    simpa using this.resolve_left (by decide)

end Discovery

end PluginHost
