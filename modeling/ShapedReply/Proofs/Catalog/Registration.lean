import ShapedReply.Proofs.Catalog.Exchange
import ShapedReply.Proofs.Schema.Reports

/-!
# What registering keeps

A catalog does not store schemas. A class holds properties, and which of them it requires follows
from their shapes; an enum holds values, each with at most one other spelling. This file says what
is left of a schema that is registered under a free name.

* An object keeps its properties and their order, and it requires **the required properties that are
  not optional** (`demanded`, `resolve_register_object`). A property that is required although it
  may be null becomes one that may be left out.
* An enum keeps its values and their order, and **of the aliases of each value the last**
  (`keptAliases`, `define_valuesOf`), in the order of the values. That is all that there is to keep
  if no value has two aliases; the order of the aliases then matters only among those that differ in
  case only (`enumMember_keptAliases`).
-/

namespace ShapedReply

open Check

namespace Catalog

variable {c : Catalog} {name : String}

/-! ## Objects -/

/-- The required properties that are not optional, in the order of their declaration. -/
def demanded (properties : Table Schema) (required : List String) : List String :=
  (properties.filter fun e => required.contains e.1 && !e.2.isOptional).map (·.1)

/-- A name is demanded when it is required and declared with a shape that is not optional. -/
theorem mem_demanded {properties : Table Schema} {required : List String} {a : String} :
    a ∈ demanded properties required ↔
      a ∈ required ∧ ∃ s, (a, s) ∈ properties ∧ s.isOptional = false := by
  rw [demanded, List.mem_map]
  constructor
  · rintro ⟨⟨b, s⟩, he, rfl⟩
    obtain ⟨hmem, hdemanded⟩ := List.mem_filter.mp he
    rw [Bool.and_eq_true, List.contains_iff_mem, Bool.not_eq_true'] at hdemanded
    exact ⟨hdemanded.1, s, hmem, hdemanded.2⟩
  · rintro ⟨ha, s, hmem, hs⟩
    exact ⟨(a, s), List.mem_filter.mpr ⟨hmem, by simp [ha, hs]⟩, rfl⟩

/-- The demanded names are the required ones where all of these are declared and none is
optional. -/
theorem demanded_iff_required {properties : Table Schema} {required : List String}
    (hnames : (Table.names properties).Nodup)
    (hdeclared : ∀ a ∈ required, a ∈ Table.names properties) :
    (∀ a, a ∈ demanded properties required ↔ a ∈ required) ↔
      ∀ e ∈ properties, e.1 ∈ required → e.2.isOptional = false := by
  constructor
  · intro h e he hrequired
    obtain ⟨-, s, hs, hoptional⟩ := mem_demanded.mp ((h e.1).mpr hrequired)
    obtain rfl : s = e.2 :=
      Option.some.inj ((Table.get?_of_mem hnames hs).symm.trans (Table.get?_of_mem hnames he))
    exact hoptional
  · intro h a
    rw [mem_demanded]
    refine and_iff_left_of_imp fun ha => ?_
    obtain ⟨e, he, rfl⟩ := List.mem_map.mp (hdeclared a ha)
    exact ⟨e.2, he, h e he ha⟩

/-- The class of an object's properties requires the demanded ones. -/
theorem define_propertiesOf_eq (properties : Table Schema) (required : List String)
    (descriptions : Table Value) :
    ∃ ps ds, ClassProperty.define (propertiesOf properties required descriptions) =
        .object ps (demanded properties required) ds ∧
      Table.names ps = Table.names properties := by
  -- What is not required has been made optional.
  have hshape (e : String × Schema) :
      (!(if required.contains e.1 || e.2.isOptional then e.2 else .optional e.2).isOptional) =
        (required.contains e.1 && !e.2.isOptional) := by
    rcases required.contains e.1 with _ | _ <;>
      rcases hoptional : e.2.isOptional with _ | _ <;> simp [hoptional, Schema.isOptional]
  refine ⟨_, _, congrArg₂ (Definition.object _ · ·) ?_ rfl, ?_⟩
  · rw [propertiesOf, List.filter_map, List.map_map, demanded]
    exact congrArg (List.map _) (List.filter_congr fun e _ => hshape e)
  · rw [propertiesOf, Table.names, List.map_map, List.map_map]
    rfl

/-- A map without a key that an object requires is refused for want of such a key. -/
theorem check_object_of_lacks (resolve : Resolver) {required : List String}
    {es : List (String × Value)} {a : String} (ha : a ∈ required) (hlacks : a ∉ Table.names es)
    (properties : Table Schema) (additional : Option Schema) (descriptions : Table Value) :
    ∃ b ∈ required, b ∉ Table.names es ∧
      check resolve (.map es) (.object properties required additional descriptions) =
        .error (.violation ⟨.missing b, [.key b]⟩) := by
  rw [check_eq, checkNode, Value.fields, checkObject]
  rcases h : checkRequired (es.map (waitingField resolve)) required with e | ⟨⟩
  · obtain ⟨b, hb, hbes, rfl⟩ := checkRequired_eq_error h
    exact ⟨b, hb, hbes, rfl⟩
  · exact absurd (checkRequired_eq_ok.mp h a ha) hlacks

/-- **Registering an object keeps its properties and the requirements that their shapes allow for.**
An object with distinct properties, which requires declared ones only, is registered under a free
name. Then the name stands for an object with the same properties in the same order, which requires
those that the object requires and that are not optional; these are all that it requires exactly
when none of them is optional. A map that lacks one of these is refused under the name as it is by
the object: for want of a required key. -/
theorem resolve_register_object {properties : Table Schema} {required : List String}
    (hfree : c.has name = false) (hnames : (Table.names properties).Nodup)
    (hdeclared : ∀ a ∈ required, a ∈ Table.names properties) (additional : Option Schema)
    (descriptions : Table Value) :
    ∃ c' ps ds,
      perform (register name (.object properties required additional descriptions)) c =
        (.ok (), c') ∧
      c'.resolve name = some (.object ps (demanded properties required) ds) ∧
      Table.names ps = Table.names properties ∧
      ((∀ a, a ∈ demanded properties required ↔ a ∈ required) ↔
        ∀ e ∈ properties, e.1 ∈ required → e.2.isOptional = false) ∧
      ∀ es, ∀ a ∈ demanded properties required, a ∉ Table.names es →
        (∃ b ∈ required, b ∉ Table.names es ∧
          check c'.resolve (.map es) (.ref name) = .error (.violation ⟨.missing b, [.key b]⟩)) ∧
        ∃ b ∈ required, b ∉ Table.names es ∧
          check c'.resolve (.map es) (.object properties required additional descriptions) =
            .error (.violation ⟨.missing b, [.key b]⟩) := by
  obtain ⟨c', hperform, hresolve⟩ :=
    perform_register_object hfree hnames required additional descriptions
  obtain ⟨ps, ds, hdefine, hps⟩ := define_propertiesOf_eq properties required descriptions
  have hname : c'.resolve name = some (.object ps (demanded properties required) ds) := by
    rw [hresolve, if_pos rfl, hdefine]
  refine ⟨c', ps, ds, hperform, hname, hps, demanded_iff_required hnames hdeclared, ?_⟩
  intro es a ha hlacks
  refine ⟨?_, check_object_of_lacks _ (mem_demanded.mp ha).1 hlacks _ _ _⟩
  obtain ⟨b, hb, hbes, hcheck⟩ := check_object_of_lacks c'.resolve ha hlacks ps none ds
  refine ⟨b, (mem_demanded.mp hb).1, hbes, ?_⟩
  rw [check_ref hname]
  exact hcheck

/-- An order: a customer that may be null and yet is required, a list of items, and a note that is a
text or null, as a union. -/
def orderProperties : Table Schema :=
  [("customer", .optional .string), ("items", .array .int), ("note", .anyOf [.string, .null]),
    ("paid", .bool)]

/-- An order that requires its items and its customer, of which only the items are not optional. -/
theorem resolve_register_object_order :
    ({} : Catalog).has "Order" = false ∧ (Table.names orderProperties).Nodup ∧
    (∀ a ∈ ["items", "customer"], a ∈ Table.names orderProperties) ∧
    demanded orderProperties ["items", "customer"] = ["items"] ∧
    ∃ c' ps ds,
      perform (register "Order" (.object orderProperties ["items", "customer"] none [])) {} =
        (.ok (), c') ∧
      c'.resolve "Order" = some (.object ps (demanded orderProperties ["items", "customer"]) ds) ∧
      Table.names ps = Table.names orderProperties ∧
      ((∀ a, a ∈ demanded orderProperties ["items", "customer"] ↔ a ∈ ["items", "customer"]) ↔
        ∀ e ∈ orderProperties, e.1 ∈ ["items", "customer"] → e.2.isOptional = false) ∧
      ∀ es, ∀ a ∈ demanded orderProperties ["items", "customer"], a ∉ Table.names es →
        (∃ b ∈ ["items", "customer"], b ∉ Table.names es ∧
          check c'.resolve (.map es) (.ref "Order") = .error (.violation ⟨.missing b, [.key b]⟩)) ∧
        ∃ b ∈ ["items", "customer"], b ∉ Table.names es ∧
          check c'.resolve (.map es) (.object orderProperties ["items", "customer"] none []) =
            .error (.violation ⟨.missing b, [.key b]⟩) :=
  have hnames : (Table.names orderProperties).Nodup := by decide
  have hdeclared : ∀ a ∈ ["items", "customer"], a ∈ Table.names orderProperties := by decide
  ⟨rfl, hnames, hdeclared, by decide, resolve_register_object rfl hnames hdeclared none []⟩

/-- A required property that may be null is not required any more: the object misses it in an empty
map, and the name that the object is registered under does not. -/
theorem check_register_nullable_required :
    ∃ c', perform (register "Order" (.object [("customer", .optional .int)] ["customer"] none []))
      {} =
        (.ok (), c') ∧
      c'.resolve "Order" = some (.object [("customer", .optional .int)] [] []) ∧
      check c'.resolve (.map []) (.ref "Order") = .ok () ∧
      check c'.resolve (.map []) (.object [("customer", .optional .int)] ["customer"] none []) =
        .error (.violation ⟨.missing "customer", [.key "customer"]⟩) :=
  ⟨_, rfl, rfl, rfl, rfl⟩

/-! ## Enums -/

/-- The aliases that registering keeps: for each value, in order, the last one that leads to it. -/
def keptAliases (values : List String) (aliases : Table String) : Table String :=
  values.filterMap fun v => aliases.reverse.find? (·.2 == v)

section

variable {values : List String} {aliases : Table String}

/-- A kept alias is an alias of a value. -/
theorem mem_keptAliases {a : String × String} (h : a ∈ keptAliases values aliases) :
    a ∈ aliases := by
  obtain ⟨v, -, hfind⟩ := List.mem_filterMap.mp h
  exact List.mem_reverse.mp (List.mem_of_find?_eq_some hfind)

/-- The kept aliases stand in the order of the values that they lead to. -/
theorem pairwise_keptAliases (hvalues : values.Nodup) (aliases : Table String) :
    (keptAliases values aliases).Pairwise fun a b => values.idxOf a.2 < values.idxOf b.2 := by
  have hordered : values.Pairwise fun u v => values.idxOf u < values.idxOf v := by
    rw [List.pairwise_iff_getElem]
    intro i j hi hj hij
    rwa [hvalues.idxOf_getElem, hvalues.idxOf_getElem]
  have hleads {v : String} {a : String × String}
      (h : aliases.reverse.find? (·.2 == v) = some a) : a.2 = v := by
    simpa using List.find?_some h
  refine hordered.filterMap _ fun u v huv a ha b hb => ?_
  rwa [hleads ha, hleads hb]

/-- No spelling is kept twice. -/
theorem nodup_names_keptAliases (hvalues : values.Nodup) (haliases : (Table.names aliases).Nodup) :
    (Table.names (keptAliases values aliases)).Nodup := by
  rw [Table.names, List.Nodup, List.pairwise_map]
  refine (pairwise_keptAliases hvalues aliases).imp_of_mem fun ha hb hlt heq => ?_
  have hsame := List.inj_on_of_nodup_map haliases (mem_keptAliases ha) (mem_keptAliases hb) heq
  rw [hsame] at hlt
  exact absurd hlt (Nat.lt_irrefl _)

/-- The enum of the registered values has the kept aliases. -/
theorem define_valuesOf (hvalues : values.Nodup) (haliases : (Table.names aliases).Nodup)
    (hspelled : ∀ a ∈ aliases, a.1 ≠ "") :
    EnumValue.define (valuesOf values aliases) = .enum values (keptAliases values aliases) := by
  have hvalue : (valuesOf values aliases).map (·.value) = values := by
    rw [valuesOf, List.map_map]
    exact List.map_id' values
  have hspelling : ((valuesOf values aliases).filterMap fun v =>
      (nonEmpty? v.spelling).map fun s => (s, v.value)) = keptAliases values aliases := by
    rw [valuesOf, List.filterMap_map, keptAliases]
    refine List.filterMap_congr fun v _ => ?_
    rcases hfind : aliases.reverse.find? (·.2 == v) with _ | a
    · simp [hfind, nonEmpty?]
    · obtain rfl : a.2 = v := by simpa using List.find?_some hfind
      have ha : a.1 ≠ "" := hspelled a (List.mem_reverse.mp (List.mem_of_find?_eq_some hfind))
      simp [hfind, nonEmpty?, ha]
  rw [EnumValue.define, EnumValue.spellings, hvalue, hspelling,
    Table.ofList_of_nodup (nodup_names_keptAliases hvalues haliases)]

/-- If no value has two aliases, all are kept. -/
theorem keptAliases_perm (hvalues : values.Nodup) (haliases : (Table.names aliases).Nodup)
    (hdeclared : ∀ a ∈ aliases, a.2 ∈ values) (hsingle : (aliases.map (·.2)).Nodup) :
    (keptAliases values aliases).Perm aliases := by
  refine (List.perm_ext_iff_of_nodup (.of_map _ (nodup_names_keptAliases hvalues haliases))
    (.of_map _ haliases)).mpr fun a => ⟨mem_keptAliases, fun ha => ?_⟩
  rcases hfind : aliases.reverse.find? (·.2 == a.2) with _ | b
  · have hnone := List.find?_eq_none.mp hfind a (List.mem_reverse.mpr ha)
    simp at hnone
  · have hleads : b.2 = a.2 := by simpa using List.find?_some hfind
    have hb : b ∈ aliases := List.mem_reverse.mp (List.mem_of_find?_eq_some hfind)
    obtain rfl := List.inj_on_of_nodup_map hsingle hb ha hleads
    exact List.mem_filterMap.mpr ⟨b.2, hdeclared b hb, hfind⟩

/-- Aliases that differ in case only lead to values in the same order as they stand in. -/
def InValueOrder (values : List String) (aliases : Table String) : Prop :=
  aliases.Pairwise fun a b =>
    Fit.folded a.1 = Fit.folded b.1 → values.idxOf a.2 < values.idxOf b.2

/-- Then the kept aliases mean by every text what the aliases mean. -/
theorem enumMember_keptAliases (hvalues : values.Nodup) (haliases : (Table.names aliases).Nodup)
    (hdeclared : ∀ a ∈ aliases, a.2 ∈ values) (hsingle : (aliases.map (·.2)).Nodup)
    (horder : InValueOrder values aliases) (t : String) :
    Fit.enumMember values (keptAliases values aliases) t = Fit.enumMember values aliases t := by
  have hperm := keptAliases_perm hvalues haliases hdeclared hsingle
  have hlookup : (keptAliases values aliases).lookup t = aliases.lookup t := by
    refine Option.ext fun v => ⟨fun h => ?_, fun h => ?_⟩
    · exact Table.get?_of_mem haliases (hperm.mem_iff.mp (Table.mem_of_get? h))
    · exact Table.get?_of_mem (nodup_names_keptAliases hvalues haliases)
        (hperm.mem_iff.mpr (Table.mem_of_get? h))
  -- Of each case form, both lists hold the same aliases in the order of the values.
  have hfind (wanted : Text) :
      (keptAliases values aliases).find? (fun a => Fit.folded a.1 == wanted) =
        aliases.find? fun a => Fit.folded a.1 == wanted := by
    have hkept := (pairwise_keptAliases hvalues aliases).filter fun a => Fit.folded a.1 == wanted
    have hgiven : (aliases.filter fun a => Fit.folded a.1 == wanted).Pairwise fun a b =>
        values.idxOf a.2 < values.idxOf b.2 := by
      refine (List.Pairwise.filter _ horder).imp_of_mem fun ha hb hlt => hlt ?_
      have ha := (List.mem_filter.mp ha).2
      have hb := (List.mem_filter.mp hb).2
      rw [beq_iff_eq] at ha hb
      rw [ha, hb]
    rw [← List.head?_filter, ← List.head?_filter]
    exact congrArg List.head? (List.Perm.eq_of_pairwise
      (fun _ _ _ _ hab hba => absurd hba (Nat.lt_asymm hab)) hkept hgiven (hperm.filter _))
  rw [Fit.enumMember, Fit.enumMember, hlookup]
  simp only [hfind]

/-- A fit against an enum depends on what its texts mean. -/
theorem fit_enum_congr {resolve : Resolver} {others : Table String}
    (h : ∀ t, Fit.enumMember values others t = Fit.enumMember values aliases t) (v : Value) :
    fit resolve v (.enum values others) = fit resolve v (.enum values aliases) := by
  rw [Fit.fit_eq, Fit.fit_eq, Fit.fitNode, Fit.fitNode, Fit.toEnum, Fit.toEnum]
  simp only [h]
  rfl

end

/-- **Registering an enum keeps the last alias of each value.** An enum of distinct values, with
aliases that are not empty and lead to values, is registered under a free name. Then every value
fits the name exactly as it fits the enum with the kept aliases; and if no value has two aliases,
and those that differ in case only stand in the order of their values, exactly as it fits the
enum. -/
theorem fit_register_enum {values : List String} {aliases : Table String}
    (hfree : c.has name = false) (hvalues : values.Nodup) (haliases : (Table.names aliases).Nodup)
    (hspelled : ∀ a ∈ aliases, a.1 ≠ "") (hdeclared : ∀ a ∈ aliases, a.2 ∈ values) :
    ∃ c', perform (register name (.enum values aliases)) c = (.ok (), c') ∧
      (∀ v, fit c'.resolve v (.ref name) =
        fit c'.resolve v (.enum values (keptAliases values aliases))) ∧
      ((aliases.map (·.2)).Nodup → InValueOrder values aliases →
        ∀ v, fit c'.resolve v (.ref name) = fit c'.resolve v (.enum values aliases)) := by
  obtain ⟨c', hperform, hresolve⟩ := perform_register_enum hfree hvalues aliases
  have hname : c'.resolve name = some (.enum values (keptAliases values aliases)) := by
    rw [hresolve, if_pos rfl, define_valuesOf hvalues haliases hspelled]
  have hkept (v : Value) : fit c'.resolve v (.ref name) =
      fit c'.resolve v (.enum values (keptAliases values aliases)) := fit_ref hname
  refine ⟨c', hperform, hkept, fun hsingle horder v => ?_⟩
  rw [hkept]
  exact fit_enum_congr (enumMember_keptAliases hvalues haliases hdeclared hsingle horder) v

/-- Sizes with aliases out of order, two of which differ in case only. -/
def sizeAliases : Table String :=
  [("big", "L"), ("m", "S"), ("M", "medium")]

/-- Sizes whose other spellings stand in the order of the values. -/
theorem fit_register_enum_sizes :
    ({} : Catalog).has "Size" = false ∧ ["S", "medium", "L"].Nodup ∧
    (Table.names sizeAliases).Nodup ∧
    (∀ a ∈ sizeAliases, a.1 ≠ "") ∧ (∀ a ∈ sizeAliases, a.2 ∈ ["S", "medium", "L"]) ∧
    (sizeAliases.map (·.2)).Nodup ∧ InValueOrder ["S", "medium", "L"] sizeAliases ∧
    keptAliases ["S", "medium", "L"] sizeAliases = [("m", "S"), ("M", "medium"), ("big", "L")] ∧
    ∃ c', perform (register "Size" (.enum ["S", "medium", "L"] sizeAliases)) {} = (.ok (), c') ∧
      ∀ v, fit c'.resolve v (.ref "Size") =
        fit c'.resolve v (.enum ["S", "medium", "L"] sizeAliases) := by
  have hfree : ({} : Catalog).has "Size" = false := rfl
  have hvalues : ["S", "medium", "L"].Nodup := by decide
  have haliases : (Table.names sizeAliases).Nodup := by decide
  have hspelled : ∀ a ∈ sizeAliases, a.1 ≠ "" := by decide
  have hdeclared : ∀ a ∈ sizeAliases, a.2 ∈ ["S", "medium", "L"] := by decide
  have hsingle : (sizeAliases.map (·.2)).Nodup := by decide
  have horder : InValueOrder ["S", "medium", "L"] sizeAliases := by
    unfold InValueOrder
    decide +kernel
  obtain ⟨c', hperform, -, hfit⟩ :=
    fit_register_enum hfree hvalues haliases hspelled hdeclared
  exact ⟨hfree, hvalues, haliases, hspelled, hdeclared, hsingle, horder, by decide, c', hperform,
    hfit hsingle horder⟩

/-- The first of two aliases of a value is forgotten, and of two aliases that differ in case only,
the one of the earlier value comes first. -/
theorem fit_register_enum_forgets :
    (∃ c', perform (register "Size" (.enum ["L"] [("big", "L"), ("large", "L")])) {} =
      (.ok (), c') ∧
      fit c'.resolve (.str "big") (.ref "Size") = .ok (.str "big") ∧
      fit c'.resolve (.str "big") (.enum ["L"] [("big", "L"), ("large", "L")]) = .ok (.str "L")) ∧
    ∃ c', perform (register "Size" (.enum ["S", "L"] [("xl", "L"), ("XL", "S")])) {} =
      (.ok (), c') ∧
      fit c'.resolve (.str "xL") (.ref "Size") = .ok (.str "S") ∧
      fit c'.resolve (.str "xL") (.enum ["S", "L"] [("xl", "L"), ("XL", "S")]) = .ok (.str "L") :=
  ⟨⟨_, rfl, by cbv, by cbv⟩, _, rfl, by cbv, by cbv⟩

end Catalog

end ShapedReply
