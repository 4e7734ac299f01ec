import ShapedReply.Proofs.Catalog.Exchange
import ShapedReply.Proofs.Recursion

/-!
# What a schema needs is what its references lead to

`Catalog.covers_needed` says that the definitions a schema needs leave no reference open. Here they
are pinned down: **they are exactly what the catalog knows under the names that references lead to
from the schema**, however often a reference has to be followed (`get?_needed_eq_some_iff`).

The search is also given as the loop that it is, `searching`: it takes the pending names one by one,
skips those that are found already or that nothing is known about, and appends what a new definition
refers to. Nothing in the loop counts steps, and definitions may refer to each other in circles; it
ends since a name is found once, and where none is found, fewer are pending (`searching_ends`).

Documents point at definitions by text (`JsonSchema.pointers`). The document of a schema without
external names points at names that the schema refers to (`mem_references_of_mem_targets`), so the
document of a schema with all that it needs points at no known name that it does not define.
-/

namespace ShapedReply

open Outcome

/-- A name that references lead to: the schema mentions it, or the definition of such a name
does. -/
inductive Schema.Needs (resolve : Resolver) (s : Schema) : String → Prop
  | named {name : String} (h : name ∈ s.references) : Needs resolve s name
  | behind {name other : String} {d : Definition} (h : Needs resolve s name)
      (hd : resolve name = some d) (hother : other ∈ d.toSchema.references) : Needs resolve s other

/-- A schema without external names, at every depth. -/
def Schema.IsInternal (s : Schema) : Prop :=
  s.everywhere (fun n => !n.isExternal) = true

namespace Catalog

/-! ## The search as a loop -/

/-- Names that are pending, and what has been found. -/
abbrev Search := List String × Table Definition

/-- One round of the search; there is none when nothing is pending. -/
def Search.next (resolve : Resolver) : Search → Option Search
  | ([], _) => none
  | (name :: pending, found) =>
    if found.has name then some (pending, found)
    else match resolve name with
      | some d => some (pending ++ d.toSchema.references, found.put name d)
      | none => some (pending, found)

/-- The search, round after round until nothing is pending. -/
def searching (resolve : Resolver) : Recursion Search (Table Definition) where
  calls x := (x.next resolve).toList
  body f x := match x.next resolve with
    | some y => f y
    | none => x.2
  fallback := []
  body_congr {f g x} h := by
    rcases hx : x.next resolve with _ | y
    · rfl
    · exact h y (by rw [hx]; exact List.mem_singleton_self y)

variable {resolve : Resolver} {known found : Table Definition} {pending : List String}
  {name : String}

/-- The search ends when no name is pending. -/
theorem ends_nil (found : Table Definition) : (searching resolve).Ends ([], found) found := by
  refine Recursion.ends_of_run (n := 1)
    (Recursion.run_succ_eq_some_iff.mpr ⟨fun _ => found, ?_, rfl⟩)
  exact fun y hy => absurd hy List.not_mem_nil

/-- The search ends as it does after one round. -/
theorem ends_of_next {x y : Search} {b : Table Definition} (hx : x.next resolve = some y)
    (h : (searching resolve).Ends y b) : (searching resolve).Ends x b := by
  obtain ⟨n, hn⟩ := h
  refine Recursion.ends_of_run (n := n + 1)
    (Recursion.run_succ_eq_some_iff.mpr ⟨fun _ => b, ?_, ?_⟩)
  · intro z hz
    change z ∈ (x.next resolve).toList at hz
    rw [hx] at hz
    rw [List.mem_singleton.mp hz]
    exact hn n (Nat.le_refl n)
  · simp only [searching, hx]

/-- A name that nothing is known about is passed over. -/
theorem collect_cons_of_unknown (h : Table.get? known name = none) (n : Nat)
    (pending : List String) :
    collect n known (name :: pending) = collect n known pending := by
  cases n with
  | zero => rfl
  | succ n => simp only [collect, nextKnown, h]

/-- A known name is collected, and the names in its definition are pending. -/
theorem collect_cons_of_known {d : Definition} (h : Table.get? known name = some d) (n : Nat)
    (pending : List String) :
    collect (n + 1) known (name :: pending) =
      (name, d) :: collect n (Table.erase known name) (pending ++ d.toSchema.references) := by
  simp only [collect, nextKnown, h]

/-- What the search may still find: what is known under names that are not found yet. -/
def unfound (resolve : Resolver) (found : Table Definition) : Resolver :=
  fun name => if found.has name then none else resolve name

/-- A name that is unknown or found already is passed over. -/
theorem next_of_unfound_eq_none (h : unfound resolve found name = none) :
    Search.next resolve (name :: pending, found) = some (pending, found) := by
  rw [unfound] at h
  rw [Search.next]
  split
  · rfl
  · next hfree => rw [if_neg hfree] at h; rw [h]

/-- A name that is known and not found yet is found, and the names in its definition are pending. -/
theorem next_of_unfound_eq_some {d : Definition} (h : unfound resolve found name = some d) :
    Search.next resolve (name :: pending, found) =
      some (pending ++ d.toSchema.references, found ++ [(name, d)]) := by
  rw [unfound] at h
  split at h
  · cases h
  · next hfree =>
    have hnew : name ∉ Table.names found := fun hmem => hfree (Table.has_iff.mpr hmem)
    simp only [Search.next, if_neg hfree, h, Table.put_of_not_mem hnew]

/-- What is found is no longer to be found, and the rest is. -/
theorem unfound_concat (resolve : Resolver) (found : Table Definition) (name : String)
    (d : Definition) (other : String) :
    unfound resolve (found ++ [(name, d)]) other =
      if other = name then none else unfound resolve found other := by
  have hhas : Table.has (found ++ [(name, d)]) other =
      (found.has other || decide (other = name)) := by
    rw [Table.has, Table.get?_concat, Option.isSome_or]
    by_cases heq : other = name
    · simp [heq]
    · simp [Table.has, heq, Ne.symm heq]
  rw [unfound, hhas]
  by_cases heq : other = name
  · simp [heq]
  · simp [unfound, heq]

/-- **The search ends**, and it adds to what has been found what is collected from the rest. -/
theorem searching_ends {n : Nat} (hlength : known.length ≤ n)
    (hknown : ∀ name, Table.get? known name = unfound resolve found name) :
    (searching resolve).Ends (pending, found) (found ++ collect n known pending) := by
  -- A definition that is found leaves the known ones; otherwise a name leaves the pending ones.
  induction n generalizing known found pending with
  | zero =>
    obtain rfl : known = [] := List.length_eq_zero_iff.mp (Nat.le_zero.mp hlength)
    induction pending with
    | nil => exact (List.append_nil found).symm ▸ ends_nil found
    | cons name pending ih => exact ends_of_next (next_of_unfound_eq_none (hknown name).symm) ih
  | succ n ihn =>
    induction pending with
    | nil => exact (List.append_nil found).symm ▸ ends_nil found
    | cons name pending ih =>
      rcases hname : Table.get? known name with _ | d
      · rw [collect_cons_of_unknown hname]
        exact ends_of_next (next_of_unfound_eq_none ((hknown name).symm.trans hname)) ih
      · rw [collect_cons_of_known hname, List.append_cons]
        refine ends_of_next (next_of_unfound_eq_some ((hknown name).symm.trans hname)) (ihn ?_ ?_)
        · have hshorter := Table.length_erase_lt hname
          omega
        · intro other
          rw [unfound_concat]
          split
          · next heq => rw [heq, Table.get?_erase_self]
          · next hne => rw [Table.get?_erase_of_ne known hne, hknown]

/-! ## What is found -/

/-- Every name under which something is collected has any property that the pending names have and
that references pass on. -/
theorem forall_mem_collect {P : String → Prop} {n : Nat} (hpending : ∀ name ∈ pending, P name)
    (hreferences : ∀ name d, P name → Table.get? known name = some d →
      ∀ other ∈ d.toSchema.references, P other) :
    ∀ name ∈ Table.names (collect n known pending), P name := by
  induction n generalizing known pending with
  | zero => exact fun name hname => absurd hname List.not_mem_nil
  | succ n ih =>
    rw [collect]
    rcases hnext : nextKnown known pending with _ | ⟨name, d, rest⟩
    · exact fun name hname => absurd hname List.not_mem_nil
    · obtain ⟨hname, unknown, rfl, -⟩ := nextKnown_eq_some hnext
      obtain ⟨-, hrest⟩ := List.forall_mem_append.mp hpending
      obtain ⟨hfirst, hrest⟩ := List.forall_mem_cons.mp hrest
      rw [Table.names_cons, List.forall_mem_cons]
      refine ⟨hfirst, ih (List.forall_mem_append.mpr ⟨hrest, ?_⟩) ?_⟩
      · exact hreferences name d hfirst hname
      · intro other d' hother hd'
        refine hreferences other d' hother ?_
        have hne : other ≠ name := by
          rintro rfl
          rw [Table.get?_erase_self] at hd'
          cases hd'
        rwa [Table.get?_erase_of_ne known hne] at hd'

/-- **What a schema needs is what its references lead to.** -/
theorem get?_needed_eq_some_iff {c : Catalog} {s : Schema} {d : Definition} :
    Table.get? (c.needed s) name = some d ↔ c.resolve name = some d ∧ s.Needs c.resolve name := by
  have hcovers := covers_needed c s
  constructor
  · intro h
    refine ⟨hcovers.sound h, ?_⟩
    refine forall_mem_collect (P := s.Needs c.resolve) (fun _ => .named) ?_ name
      (List.mem_map_of_mem (Table.mem_of_get? h))
    exact fun _ _ hneeds hd _ hother => .behind hneeds hd hother
  · rintro ⟨hd, hneeds⟩
    -- Along the way, each name has been found before its definition is looked into.
    have hsame : Table.get? (c.needed s) name = c.resolve name := by
      clear hd
      induction hneeds with
      | named h => exact hcovers.asked h
      | behind _ hd hother ih => exact hcovers.closed (Table.mem_of_get? (ih.trans hd)) hother
    rw [hsame, hd]

end Catalog

/-! ## Pointers -/

namespace JsonSchema

/-- Whether the table under a keyword holds documents under names that are no keywords. -/
def holdsNamed (k : String) : Bool :=
  k == "properties" || k == "$defs"

mutual

/-- The targets of the references in a document, or in a table of named documents. -/
def targets (named : Bool) : Value → List String
  | .map entries => entryTargets named entries
  | .array documents => listedTargets documents
  | _ => []

/-- The targets of the references in several documents. -/
def listedTargets : List Value → List String
  | [] => []
  | v :: documents => targets false v ++ listedTargets documents

/-- The targets of the references under keywords, or under names. A description is no document. -/
def entryTargets (named : Bool) : List (String × Value) → List String
  | [] => []
  | (k, v) :: entries =>
    (if named then targets false v
    else if k = "$ref" then texts [v]
    else if k = "description" then []
    else targets (holdsNamed k) v) ++ entryTargets named entries

end

/-- The targets of the references in a document. -/
def pointers (document : Value) : List String :=
  targets false document

variable {target : String} {named : Bool}

/-- The targets of entries are those of the first ones and those of the others. -/
theorem entryTargets_append (named : Bool) (es fs : List (String × Value)) :
    entryTargets named (es ++ fs) = entryTargets named es ++ entryTargets named fs := by
  induction es with
  | nil => rfl
  | cons e es ih => rw [List.cons_append, entryTargets, entryTargets, ih, List.append_assoc]

/-- Each entry has its targets by itself. -/
theorem mem_entryTargets {entries : List (String × Value)} :
    target ∈ entryTargets named entries ↔ ∃ e ∈ entries, target ∈ entryTargets named [e] := by
  induction entries with
  | nil => simp [entryTargets]
  | cons e entries ih =>
    have hsplit : entryTargets named (e :: entries) =
        entryTargets named [e] ++ entryTargets named entries :=
      entryTargets_append named [e] entries
    rw [hsplit, List.mem_append, ih, List.exists_mem_cons_iff]

/-- Putting an entry into a document adds no targets but those of the entry. -/
theorem mem_entryTargets_put {entries : List (String × Value)} {name : String} {v : Value}
    (h : target ∈ entryTargets named (Table.put entries name v)) :
    target ∈ entryTargets named [(name, v)] ∨ target ∈ entryTargets named entries := by
  obtain ⟨e, he, htarget⟩ := mem_entryTargets.mp h
  rcases Table.mem_put he with rfl | he
  · exact .inl htarget
  · exact .inr (mem_entryTargets.mpr ⟨e, he, htarget⟩)

/-- The documents of properties stand under the names of the properties, and their targets are those
of the properties, described or not. -/
theorem targets_propertyEntries {descriptions : List (String × Value)}
    {properties : List (String × Schema)} {documents : List (String × Value)}
    (h : propertyEntries descriptions properties = .ok documents) :
    Table.names documents = Table.names properties ∧
      ∀ target ∈ entryTargets true documents, ∃ s ∈ properties.map (·.2), ∃ document,
        entries s = .ok document ∧ target ∈ entryTargets false document := by
  induction properties generalizing documents with
  | nil =>
    cases h
    exact ⟨rfl, fun target htarget => absurd htarget List.not_mem_nil⟩
  | cons p properties ih =>
    obtain ⟨name, s⟩ := p
    rw [propertyEntries] at h
    obtain ⟨document, hdocument, h⟩ := bind_eq_ok_iff.mp h
    obtain ⟨rest, hrest, h⟩ := bind_eq_ok_iff.mp h
    cases h
    obtain ⟨hnames, htargets⟩ := ih hrest
    refine ⟨by rw [Table.names_cons, Table.names_cons, hnames], ?_⟩
    intro target htarget
    rw [entryTargets, if_pos rfl, List.mem_append] at htarget
    rw [List.map_cons]
    rcases htarget with htarget | htarget
    · refine ⟨s, List.mem_cons_self, document, hdocument, ?_⟩
      rw [targets] at htarget
      split at htarget
      · exact (mem_entryTargets_put htarget).resolve_left (by simp [entryTargets])
      · exact htarget
    · obtain ⟨x, hx, hfound⟩ := htargets target htarget
      exact ⟨x, List.mem_cons_of_mem s hx, hfound⟩

/-- What the documents of members point to, one of the documents points to. -/
theorem targets_memberDocuments {members : List Schema} {documents : List Value}
    (h : memberDocuments members = .ok documents) :
    ∀ target ∈ listedTargets documents, ∃ s ∈ members, ∃ document,
      entries s = .ok document ∧ target ∈ entryTargets false document := by
  induction members generalizing documents with
  | nil =>
    cases h
    exact fun target htarget => absurd htarget List.not_mem_nil
  | cons s members ih =>
    rw [memberDocuments] at h
    obtain ⟨document, hdocument, h⟩ := bind_eq_ok_iff.mp h
    obtain ⟨rest, hrest, h⟩ := bind_eq_ok_iff.mp h
    cases h
    intro target htarget
    rw [listedTargets, List.mem_append] at htarget
    rcases htarget with htarget | htarget
    · exact ⟨s, List.mem_cons_self, document, hdocument, htarget⟩
    · obtain ⟨x, hx, hfound⟩ := ih hrest target htarget
      exact ⟨x, List.mem_cons_of_mem s hx, hfound⟩

/-- Texts have no targets. -/
theorem listedTargets_texts (texts : List String) : listedTargets (texts.map .str) = [] := by
  induction texts with
  | nil => rfl
  | cons text texts ih => rw [List.map_cons, listedTargets, ih]; rfl

/-- The targets in the document of an object are those of its properties and of what it says about
other keys. -/
theorem entryTargets_object (documents : List (String × Value)) (required : List String)
    (other : Value) :
    entryTargets false (typed "object" ++ [("properties", .map documents)]
      ++ (if required.isEmpty then [] else [("required", .array (required.map .str))])
      ++ [("additionalProperties", other)]) =
    entryTargets true documents ++ targets false other := by
  have hrequired : entryTargets false
      (if required.isEmpty then [] else [("required", .array (required.map .str))]) = [] := by
    split <;> simp [entryTargets, targets, listedTargets_texts]
  rw [entryTargets_append, entryTargets_append, entryTargets_append, hrequired]
  simp [typed, entryTargets, targets, holdsNamed]

/-- **The document of a schema without external names points at names that the schema refers
to.** -/
theorem mem_references_of_mem_targets {s : Schema} (hs : s.IsInternal)
    {document : List (String × Value)} (h : entries s = .ok document)
    (htarget : target ∈ entryTargets false document) :
    ∃ name ∈ s.references, target = definitionsPrefix ++ name := by
  induction s using Schema.ind generalizing document target with
  | step s ih =>
  obtain ⟨hself, hparts⟩ := Schema.everywhere_iff.mp hs
  have hpart {x : Schema} (hx : x ∈ s.parts) {document : List (String × Value)} {target : String}
      (h : entries x = .ok document) (htarget : target ∈ entryTargets false document) :
      ∃ name ∈ s.references, target = definitionsPrefix ++ name := by
    obtain ⟨name, hname, heq⟩ := ih x hx (hparts x hx) h htarget
    exact ⟨name, Schema.references_of_mem_parts hx hname, heq⟩
  cases s with
  | array s =>
    obtain ⟨item, hitem, h⟩ := bind_eq_ok_iff.mp h
    cases h
    have hitems : target ∈ entryTargets false item := by
      simpa [typed, entryTargets, targets, holdsNamed] using htarget
    exact hpart (by simp [Schema.parts]) hitem hitems
  | map key s =>
    obtain ⟨value, hvalue, h⟩ := bind_eq_ok_iff.mp h
    cases h
    have hvalues : target ∈ entryTargets false value := by
      simpa [typed, entryTargets, targets, holdsNamed] using htarget
    exact hpart (by simp [Schema.parts]) hvalue hvalues
  | object properties required additional descriptions =>
    rw [entries] at h
    obtain ⟨documents, hdocuments, h⟩ := bind_eq_ok_iff.mp h
    have hproperties (htarget : target ∈ entryTargets true documents) :
        ∃ name ∈ (Schema.object properties required additional descriptions).references,
          target = definitionsPrefix ++ name := by
      obtain ⟨s, hs, document, hdocument, htarget⟩ :=
        (targets_propertyEntries hdocuments).2 target htarget
      exact hpart (List.mem_append_left _ hs) hdocument htarget
    cases additional with
    | none =>
      cases h
      rw [entryTargets_object, List.mem_append] at htarget
      exact htarget.elim hproperties fun htarget => absurd htarget List.not_mem_nil
    | some s =>
      obtain ⟨other, hother, h⟩ := bind_eq_ok_iff.mp h
      obtain ⟨document, hdocument, rfl⟩ := map_eq_ok_iff.mp hother
      cases h
      rw [entryTargets_object, List.mem_append] at htarget
      exact htarget.elim hproperties
        (hpart (List.mem_append_right _ (List.mem_singleton_self s)) hdocument)
  | anyOf members =>
    obtain ⟨documents, hdocuments, h⟩ := bind_eq_ok_iff.mp h
    cases h
    have hmembers : target ∈ listedTargets documents := by
      simpa [entryTargets, targets] using htarget
    obtain ⟨s, hs, document, hdocument, htarget⟩ :=
      targets_memberDocuments hdocuments target hmembers
    exact hpart hs hdocument htarget
  | optional s =>
    obtain ⟨inner, hinner, h⟩ := bind_eq_ok_iff.mp h
    cases h
    have hinners : target ∈ entryTargets false inner := by
      simpa [typed, entryTargets, listedTargets, targets] using htarget
    exact hpart (by simp [Schema.parts]) hinner hinners
  | ref name =>
    cases h
    refine ⟨name, List.mem_singleton_self name, ?_⟩
    simpa [entryTargets, texts] using htarget
  | external name => cases hself
  | enum values aliases =>
    cases h
    simp [typed, entryTargets, targets, listedTargets_texts] at htarget
  | literal value =>
    rw [entries] at h
    split at h
    · cases h
      cases value <;> simp [typed, entryTargets, targets, listedTargets, Scalar.toValue] at htarget
    · cases h
  | string | int | float | bool | null =>
    cases h
    simp [typed, entryTargets, targets] at htarget

end JsonSchema

/-! ## Documents without open ends -/

namespace Catalog

open JsonSchema

variable {c : Catalog} {s : Schema} {document : Table Value}

/-- What a document points at is pointed at by the schema or by a definition. -/
theorem mem_targets_of_mem_pointers {root named : Table Value} {target : String}
    (h :
      target ∈ pointers (.map (if named.isEmpty then root
      else Table.put root "$defs" (.map named)))) :
    target ∈ entryTargets false root ∨ target ∈ entryTargets true named := by
  rw [pointers, targets] at h
  split at h
  · exact .inl h
  · refine (mem_entryTargets_put h).symm.imp_right fun h => ?_
    simpa [entryTargets, targets, holdsNamed] using h

/-- **In the document of a schema with all that it needs, every reference is to a name, and the
document defines the name if the catalog knows it.** No external names may occur: nothing follows
them. -/
theorem mem_definedNames_of_mem_pointers (hs : s.IsInternal)
    (hneeded : ∀ e ∈ c.needed s, e.2.toSchema.IsInternal)
    (hdocument : c.document s = .ok (.map document)) :
    ∀ target ∈ pointers (.map document), ∃ name, target = definitionsPrefix ++ name ∧
      (c.has name = true → name ∈ definedNames document) := by
  have hcovers := covers_needed c s
  rw [Catalog.document, Schema.toDocumentWith] at hdocument
  obtain ⟨root, hroot, hdocument⟩ := bind_eq_ok_iff.mp hdocument
  obtain ⟨named, hnamed, hdocument⟩ := bind_eq_ok_iff.mp hdocument
  cases hdocument
  obtain ⟨hnames, htargets⟩ := targets_propertyEntries hnamed
  rw [Table.names_mapEntries] at hnames
  have hdefined {name : String} (hsame : Table.get? (c.needed s) name = c.resolve name)
      (hname : c.has name = true) : name ∈ definedNames
        (if named.isEmpty then root else Table.put root "$defs" (.map named)) := by
    have hmem : name ∈ Table.names named := by
      rw [hnames, ← Table.has_iff, Table.has, hsame, ← has_eq_isSome_resolve, hname]
    cases named with
    | nil => cases hmem
    | cons e named => simpa [definedNames, Table.get?_put_self] using hmem
  intro target htarget
  rcases mem_targets_of_mem_pointers htarget with htarget | htarget
  · obtain ⟨name, hname, rfl⟩ := mem_references_of_mem_targets hs hroot htarget
    exact ⟨name, rfl, hdefined (hcovers.asked hname)⟩
  · obtain ⟨x, hx, document, hdocument, htarget⟩ := htargets target htarget
    rw [Table.mapEntries, List.map_map] at hx
    obtain ⟨e, he, rfl⟩ := List.mem_map.mp hx
    obtain ⟨name, hname, rfl⟩ := mem_references_of_mem_targets (hneeded e he) hdocument htarget
    exact ⟨name, rfl, hdefined (hcovers.closed he hname)⟩

/-- **The definitions that a schema needs are exactly those that references lead to.** For every
catalog and schema, the search ends with them; each is there once; and they are what the catalog
knows under the names that references lead to. If all literals are spelled, the schema has a
document with them; and if there are no external names either, every reference of the document to a
name of the catalog finds its definition there. -/
theorem needed_iff_references_lead_there (c : Catalog) (s : Schema) :
    (searching c.resolve).Ends (s.references, []) (c.needed s) ∧
    (Table.names (c.needed s)).Nodup ∧
    (∀ name d, Table.get? (c.needed s) name = some d ↔
      c.resolve name = some d ∧ s.Needs c.resolve name) ∧
    (s.HasSpelledLiterals → (∀ e ∈ c.needed s, e.2.toSchema.HasSpelledLiterals) →
      ∃ document, c.document s = .ok (.map document)) ∧
    (s.IsInternal → (∀ e ∈ c.needed s, e.2.toSchema.IsInternal) →
      ∀ document, c.document s = .ok (.map document) →
        ∀ target ∈ pointers (.map document), ∃ name, target = definitionsPrefix ++ name ∧
          (c.has name = true → name ∈ definedNames document)) := by
  refine ⟨?_, (covers_needed c s).nodup, fun _ _ => get?_needed_eq_some_iff, ?_, ?_⟩
  · change (searching c.resolve).Ends (s.references, []) ([] ++ c.needed s)
    exact searching_ends (Nat.le_refl _) fun _ => rfl
  · intro hs hneeded
    obtain ⟨document, -, hdocument, -⟩ := exists_document hs hneeded
    exact ⟨document, hdocument⟩
  · exact fun hs hneeded _ hdocument => mem_definedNames_of_mem_pointers hs hneeded hdocument

/-- Lists of nodes, or something that the catalog knows nothing about. -/
def nodesOrGhost : Schema := .anyOf [.array (.ref "Node"), .ref "Ghost"]

/-- Nodes lead to edges and colours and back to nodes; a ghost is referred to and not known. -/
theorem needed_iff_references_lead_there_graph :
    nodesOrGhost.HasSpelledLiterals ∧
    (∀ e ∈ graph.needed nodesOrGhost, e.2.toSchema.HasSpelledLiterals) ∧
    nodesOrGhost.IsInternal ∧ (∀ e ∈ graph.needed nodesOrGhost, e.2.toSchema.IsInternal) ∧
    Table.names (graph.needed nodesOrGhost) = ["Node", "Edge", "Color"] ∧
    (∃ document, graph.document nodesOrGhost = .ok (.map document)) ∧
    ∃ document, graph.document nodesOrGhost = .ok (.map document) ∧
      pointers (.map document) = ["#/$defs/Node", "#/$defs/Ghost", "#/$defs/Edge", "#/$defs/Color",
        "#/$defs/Node"] ∧
      ∀ target ∈ pointers (.map document), ∃ name, target = definitionsPrefix ++ name ∧
        (graph.has name = true → name ∈ definedNames document) :=
  have hspelled : nodesOrGhost.HasSpelledLiterals := by cbv
  have hspelled' : ∀ e ∈ graph.needed nodesOrGhost, e.2.toSchema.HasSpelledLiterals :=
    List.all_eq_true.mp (by cbv)
  have hs : nodesOrGhost.IsInternal := by cbv
  have hs' : ∀ e ∈ graph.needed nodesOrGhost, e.2.toSchema.IsInternal :=
    List.all_eq_true.mp (by cbv)
  have hexact := needed_iff_references_lead_there graph nodesOrGhost
  ⟨hspelled, hspelled', hs, hs', by decide +kernel, hexact.2.2.2.1 hspelled hspelled', _, rfl,
    by decide +kernel, hexact.2.2.2.2 hs hs' _ rfl⟩

end Catalog

end ShapedReply
