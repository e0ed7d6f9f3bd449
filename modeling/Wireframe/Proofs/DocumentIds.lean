import Wireframe.Proofs.Mirror

/-!
# Ids number the parts of a document

The id of an entry is a matter of its place in the source map: it counts the entries before it that
are numbered together with it. So ids are told apart, unless two definitions share a name.

## Main definitions

* `Subject.idAfter` — the id of an entry, given the entries before it.
* `Subject.family?` — the family in which an entry is numbered.
* `Draft.label?`, `Ticket.label` — what a draft and its ticket have in common.

## Main results

* `ProjectBlock.filterMap_label?_drafts` — the drafts that are numbered bear the tickets in order.
* `ProjectBlock.id_eq_idAfter` — the id of a draft, given the drafts before it.
* `ProjectBlock.pairwise_ids` — two drafts that share an id are those of definitions.
* `sourceMap_ids` — the ids of a source map number its entries and tell them apart.
-/

namespace Wireframe

/-! ### Ids by place -/

/-- The name that the entry of a definition defines. -/
def Subject.definedName? : Subject → Option String
  | .componentDefinition name | .layoutDefinition name => some name
  | _ => none

/-- Whether two entries are numbered together. Types may differ in case, and definitions of either
kind may share a name. -/
def Subject.isNumberedWith : Subject → Subject → Bool
  | .screen _, .screen _ => true
  | .cell, .cell => true
  | .component type _, .component other _ => type.toLower = other.toLower
  | .layout type _, .layout other _ => type.toLower = other.toLower
  | .componentDefinition name, other | .layoutDefinition name, other =>
    other.definedName? = some name
  | _, _ => false

/-- The id of an entry, given the entries before it. The first definition of a name goes without a
number. -/
def Subject.idAfter (before : List Entry) (s : Subject) : NodeId :=
  let k := before.countP fun e => s.isNumberedWith e.subject
  match s with
  | .project _ => "project"
  | .theme => "theme"
  | .mocks => "mocks"
  | .colors => "colors"
  | .screen _ => s!"screen-{k}"
  | .cell => s!"cell-{k}"
  | .component type _ => s!"component-{type.toLower}-{k}"
  | .layout type _ => s!"layout-{type.toLower}-{k}"
  | .componentDefinition name | .layoutDefinition name =>
    if k = 0 then s!"define-{name}" else s!"define-{name}-{k}"

/-- The family in which the entry of a subject is numbered. The entries of a project and of settings
bear the names of their kinds. -/
def Subject.family? : Subject → Option IdFamily
  | .project _ | .theme | .mocks | .colors => none
  | .screen _ => some .screen
  | .cell => some .cell
  | .component type _ => some (.component type.toLower)
  | .layout type _ => some (.layout type.toLower)
  | .componentDefinition name | .layoutDefinition name => some (.definition name)

namespace Subject

variable {s t : Subject} {family : IdFamily} {before : List Entry}

theorem isNumberedWith_iff (own : s.family? = some family) :
    s.isNumberedWith t = true ↔ t.family? = some family := by
  cases s <;> cases own <;> cases t <;>
    simp [isNumberedWith, family?, definedName?, eq_comm]

theorem idAfter_of_family (own : s.family? = some family) :
    s.idAfter before = family.id (before.countP fun e => e.subject.family? = some family) := by
  have counted : before.countP (fun e => s.isNumberedWith e.subject) =
      before.countP fun e => e.subject.family? = some family := by
    refine List.countP_congr fun e _ => ?_
    rw [isNumberedWith_iff own, decide_eq_true_iff]
  unfold idAfter
  rw [counted]
  generalize before.countP _ = k
  cases s with
  | project | theme | mocks | colors => contradiction
  | screen | cell | component | layout =>
    obtain rfl := Option.some.inj own
    rfl
  | componentDefinition | layoutDefinition =>
    obtain rfl := Option.some.inj own
    cases k <;> rfl

theorem idAfter_of_unnumbered (unnumbered : s.family? = none) : s.idAfter before = s.kind.name := by
  cases s <;> first | rfl | contradiction

theorem isNamed_of_unnumbered (unnumbered : s.family? = none) : s.kind.isNamed = true := by
  cases s <;> first | rfl | contradiction

/-- The first definition of a name bears an id without a number. -/
theorem idAfter_of_first {name : String} (own : s.definedName? = some name)
    (first : ∀ e ∈ before, e.subject.definedName? ≠ some name) :
    s.idAfter before = IdFamily.id (.definition name) 0 := by
  have family : s.family? = some (.definition name) := by
    cases s <;> cases own <;> rfl
  rw [idAfter_of_family family, List.countP_eq_zero.mpr]
  intro e earlier shared
  apply first e earlier
  revert shared
  cases e.subject <;> simp [family?, definedName?]

theorem definedName?_ne_none (own : s.family? = some family)
    (definition : family.isDefinition = true) : s.definedName? ≠ none := by
  cases s <;> cases own <;> first | contradiction | simp [definedName?]

end Subject

theorem NodeKind.name_inj {kind other : NodeKind} (same : kind.name = other.name) :
    kind = other := by
  cases kind <;> cases other <;> first | rfl | (revert same; decide)

/-! ### Drafts and tickets -/

/-- The family and the id of a ticket. -/
def Ticket.label (t : Ticket) : IdFamily × NodeId :=
  (t.family, t.id)

/-- The family and the id of a draft, if it is numbered. -/
def Draft.label? (d : Draft) : Option (IdFamily × NodeId) :=
  d.subject.family?.map fun family => (family, d.id)

theorem label?_draft (names : DefinedNames) (n : NumberedBlock) (parent : NodeId) :
    (NumberedBlock.draft names n parent).label? =
      some (NumberedBlock.family n, (NumberedBlock.ticket n).id) := by
  cases n <;> rfl

/-- The drafts of a block bear its tickets, one for one. -/
theorem filterMap_label?_blockDrafts {n : NumberedBlock} (own : NumberedBlock.InFamilies n)
    (names : DefinedNames) (parent : NodeId) :
    (NumberedBlock.drafts names n parent).filterMap Draft.label? =
      (NumberedBlock.tickets n).map Ticket.label := by
  calc (NumberedBlock.drafts names n parent).filterMap Draft.label?
    _ = n.walk.filterMap fun m => some (NumberedBlock.family m, (NumberedBlock.ticket m).id) := by
      rw [NumberedBlock.drafts, Tree.walk_eq_cons_links, List.filterMap_cons, List.filterMap_cons,
        label?_draft, List.filterMap_map, List.filterMap_map]
      refine congrArg _ (List.filterMap_congr fun link _ => ?_)
      exact label?_draft names link.2 _
    _ = n.walk.map fun m => (NumberedBlock.family m, (NumberedBlock.ticket m).id) :=
      congrFun List.filterMap_eq_map' _
    _ = (NumberedBlock.tickets n).map Ticket.label := by
      rw [NumberedBlock.tickets, List.map_map]
      refine List.map_congr_left fun m walked => ?_
      rw [Function.comp_apply, Ticket.label, own m walked]

theorem family?_settings (kind : SettingsKind) : kind.subject.family? = none := by
  cases kind <;> rfl

namespace ProjectBlock

variable {project : ProjectBlock}

/-- The drafts of an item bear its tickets, one for one. -/
theorem filterMap_label?_drafts {item : NumberedItem} (inside : item ∈ project.numbered)
    (parent : NodeId) : (item.drafts project.names parent).filterMap Draft.label? =
      item.tickets.map Ticket.label := by
  cases held : item.body? with
  | none => cases item <;> first | rfl | contradiction
  | some body =>
    obtain ⟨t, tickets, family, own⟩ := exists_ticket inside held
    have below := filterMap_label?_blockDrafts own project.names t.id
    cases item with
    | settings => contradiction
    | componentDefinition u | layoutDefinition u | screen u =>
      obtain rfl := Option.some.inj held
      obtain ⟨rfl, -⟩ := List.cons.inj tickets
      rw [tickets, List.map_cons, ← below, Ticket.label, ← Option.some.inj family]
      exact List.filterMap_cons_some rfl

/-- The drafts of a project that are numbered bear its tickets, one for one. -/
theorem filterMap_label?_project (project : ProjectBlock) :
    project.drafts.filterMap Draft.label? = project.tickets.map Ticket.label := by
  have unnumbered : ∀ first written,
      (settingsDraft first written NodeKind.project.name).label? = none := fun first _ =>
    congrArg (Option.map _) (family?_settings first.head.kind)
  rw [drafts, List.filterMap_cons_none rfl, filterMap_itemDrafts unnumbered, tickets,
    List.map_flatMap]
  exact List.flatMap_congr fun item inside => filterMap_label?_drafts inside _

/-- A draft that is numbered counts those of its family before it. -/
theorem id_of_family {before after : List Draft} {d : Draft} {family : IdFamily}
    (split : project.drafts = before ++ d :: after) (own : d.subject.family? = some family) :
    d.id = family.id (before.countP fun e => e.subject.family? = some family) := by
  have labels := project.filterMap_label?_project
  have label : d.label? = some (family, d.id) := congrArg (Option.map _) own
  rw [split, List.filterMap_append, List.filterMap_cons_some label] at labels
  -- The ticket of the draft stands behind those of the drafts before it.
  obtain ⟨ts, us, tickets, front, behind⟩ := List.map_eq_append_iff.mp labels.symm
  obtain ⟨t, us, rfl, same, -⟩ := List.map_eq_cons_iff.mp behind
  obtain ⟨rfl, id⟩ := Prod.mk.inj same
  have handsOut := project.handsOut
  rw [tickets] at handsOut
  have families : ts.map Ticket.family = before.filterMap fun e => e.subject.family? := by
    have firsts := congrArg (List.map Prod.fst) front
    rw [List.map_map, List.map_filterMap] at firsts
    simpa [Draft.label?, Function.comp_def, Ticket.label] using firsts
  rw [← id, Ticket.id, handsOut.number_eq, List.count_nil, Nat.zero_add, families,
    List.count_filterMap]
  exact congrArg _ (List.countP_congr fun e _ => by rw [beq_iff_eq, decide_eq_true_iff])

theorem id_of_unnumbered {d : Draft} (inside : d ∈ project.drafts)
    (unnumbered : d.subject.family? = none) : d.id = d.subject.kind.name := by
  rcases List.mem_cons.mp inside with rfl | inside
  · rfl
  rcases mem_itemDrafts inside with ⟨first, -, rfl⟩ | ⟨item, held, own⟩
  · rfl
  · have named := Subject.isNamed_of_unnumbered unnumbered
    rw [not_isNamed_of_mem_drafts own] at named
    contradiction

/-- The id of a draft, given the drafts before it. -/
theorem id_eq_idAfter {before after : List Draft} {d : Draft} (text : List Char)
    (split : project.drafts = before ++ d :: after) :
    d.id = d.subject.idAfter (before.map (project.placed text)) := by
  have inside : d ∈ project.drafts := by
    rw [split]
    exact List.mem_append_right _ List.mem_cons_self
  cases own : d.subject.family? with
  | none => rw [id_of_unnumbered inside own, Subject.idAfter_of_unnumbered own]
  | some family =>
    rw [id_of_family split own, Subject.idAfter_of_family own, List.countP_map]
    rfl

/-! ### Telling ids apart -/

/-- A project has one entry of its own, and settings of a kind have one at most. -/
theorem countP_drafts_le_one (project : ProjectBlock) {kind : NodeKind}
    (named : kind.isNamed = true) : project.drafts.countP (·.subject.kind = kind) ≤ 1 := by
  have settings : ∀ s : SettingsKind, kind = s.subject.kind →
      project.drafts.countP (·.subject.kind = kind) ≤ 1 := by
    rintro s rfl
    have other : project.draft.subject.kind ≠ s.subject.kind := s.kind_ne_project.symm
    rw [drafts, List.countP_cons_of_neg (by simpa using other), numbered, countP_itemDrafts]
    split <;> decide
  cases kind with
  | screen | layout | cell | component | componentDefinition | layoutDefinition => contradiction
  | theme => exact settings .style rfl
  | mocks => exact settings .mocks rfl
  | colors => exact settings .colors rfl
  | project =>
    have others : (project.itemDrafts NodeKind.project.name [] project.numbered).countP
        (·.subject.kind = .project) = 0 := by
      refine List.countP_eq_zero.mpr fun d inside found => ?_
      have kind := of_decide_eq_true found
      rcases mem_itemDrafts inside with ⟨first, -, rfl⟩ | ⟨item, held, own⟩
      · exact first.head.kind.kind_ne_project kind
      · have unnamed := not_isNamed_of_mem_drafts own
        rw [kind] at unnamed
        contradiction
    rw [drafts, List.countP_cons, others]
    split <;> decide

/-- What is numbered does not bear the id of what is not. -/
theorem id_ne_of_unnumbered {d e : Draft} {family : IdFamily} (inD : d ∈ project.drafts)
    (numbered : d.subject.family? = some family) (inE : e ∈ project.drafts)
    (unnumbered : e.subject.family? = none) : d.id ≠ e.id := by
  obtain ⟨before, after, split⟩ := List.append_of_mem inD
  rw [id_of_family split numbered, id_of_unnumbered inE unnumbered]
  exact Ticket.id_ne_name ⟨family, _⟩ (Subject.isNamed_of_unnumbered unnumbered)

/-- Two tickets that share an id are those of definitions. -/
theorem pairwise_labels (project : ProjectBlock) :
    (project.tickets.map Ticket.label).Pairwise fun a b =>
      a.2 = b.2 → a.1.isDefinition = true ∧ b.1.isDefinition = true := by
  refine List.pairwise_map.mpr (project.nodup_tickets.imp fun {s t} differ same => ?_)
  constructor
  · by_contra other
    exact differ (Ticket.eq_of_id same (Bool.eq_false_iff.mpr other))
  · by_contra other
    exact differ (Ticket.eq_of_id same.symm (Bool.eq_false_iff.mpr other)).symm

/-- Two drafts that share an id are those of definitions. -/
theorem pairwise_ids (project : ProjectBlock) : project.drafts.Pairwise fun d e =>
    d.id = e.id → d.subject.definedName? ≠ none ∧ e.subject.definedName? ≠ none := by
  refine List.pairwise_iff_forall_sublist.mpr fun {d e} part same => ?_
  have inD : d ∈ project.drafts := part.subset List.mem_cons_self
  have inE : e ∈ project.drafts := part.subset (List.mem_cons_of_mem _ List.mem_cons_self)
  cases ownD : d.subject.family? with
  | none =>
    cases ownE : e.subject.family? with
    | none =>
      -- Both bear the name of their kind, and of that kind there is only one draft.
      have kinds : d.subject.kind = e.subject.kind := by
        apply NodeKind.name_inj
        rw [← id_of_unnumbered inD ownD, same, id_of_unnumbered inE ownE]
      have once := project.countP_drafts_le_one (Subject.isNamed_of_unnumbered ownE)
      have twice := part.countP_le (p := fun d : Draft => d.subject.kind = e.subject.kind)
      simp only [List.countP_cons, List.countP_nil, kinds, decide_true, if_true] at twice
      omega
    | some family => exact absurd same.symm (id_ne_of_unnumbered inE ownE inD ownD)
  | some family =>
    cases ownE : e.subject.family? with
    | none => exact absurd same (id_ne_of_unnumbered inD ownD inE ownE)
    | some other =>
      have labels := part.filterMap Draft.label?
      rw [filterMap_label?_project] at labels
      have both : [d, e].filterMap Draft.label? = [(family, d.id), (other, e.id)] := by
        simp [Draft.label?, ownD, ownE]
      rw [both] at labels
      obtain ⟨first, second⟩ :=
        List.pairwise_iff_forall_sublist.mp project.pairwise_labels labels same
      exact ⟨Subject.definedName?_ne_none ownD first, Subject.definedName?_ne_none ownE second⟩

/-- The definitions of a project, by the names that their drafts define. -/
theorem filterMap_definedName?_project (project : ProjectBlock) :
    (project.drafts.filterMap fun d => d.subject.definedName?) =
      project.lowered.definitions.map Definition.name := by
  have settings : ∀ first written,
      (settingsDraft first written NodeKind.project.name).subject.definedName? = none :=
    fun first _ => by cases kind : first.head.kind <;> simp [settingsDraft, kind] <;> rfl
  have inBody : ∀ (body : NumberedBlock) (parent : NodeId),
      ((NumberedBlock.drafts project.names body parent).filterMap fun d =>
        d.subject.definedName?) = [] := by
    intro body parent
    refine List.filterMap_eq_nil_iff.mpr fun d inside => ?_
    have kind := kind_of_mem_blockDrafts inside
    cases shape : d.subject <;> simp [shape, Subject.kind] at kind <;> rfl
  rw [drafts, List.filterMap_cons_none rfl, filterMap_itemDrafts settings, lowered,
    List.filterMap_eq_flatMap_toList, List.map_flatMap]
  refine List.flatMap_congr fun item _ => ?_
  cases item with
  | settings => rfl
  | screen t => exact (List.filterMap_cons_none rfl).trans (inBody _ t.id)
  | componentDefinition t | layoutDefinition t =>
    rw [NumberedItem.drafts, List.filterMap_cons_some (by rfl), inBody]
    rfl

section Entries

variable {text : List Char}

theorem entry_id {before after : List Entry} {e : Entry}
    (split : project.entries text = before ++ e :: after) : e.id = e.subject.idAfter before := by
  obtain ⟨front, rest, drafts, rfl, behind⟩ := List.map_eq_append_iff.mp split
  obtain ⟨d, others, rfl, rfl, -⟩ := List.map_eq_cons_iff.mp behind
  exact id_eq_idAfter text drafts

theorem pairwise_entry_ids (project : ProjectBlock) (text : List Char) :
    (project.entries text).Pairwise fun e f =>
      e.id = f.id → e.subject.definedName? ≠ none ∧ f.subject.definedName? ≠ none :=
  List.pairwise_map.mpr project.pairwise_ids

theorem filterMap_definedName?_entries (project : ProjectBlock) (text : List Char) :
    ((project.entries text).filterMap fun e => e.subject.definedName?) =
      project.lowered.definitions.map Definition.name := by
  rw [entries, List.filterMap_map]
  exact project.filterMap_definedName?_project

end Entries

end ProjectBlock

/-- Ids that number their entries are told apart if no name is defined twice. -/
theorem nodup_ids {entries : List Entry}
    (ids : ∀ before e after, entries = before ++ e :: after → e.id = e.subject.idAfter before)
    (apart : entries.Pairwise fun e f =>
      e.id = f.id → e.subject.definedName? ≠ none ∧ f.subject.definedName? ≠ none)
    (names : (entries.filterMap fun e => e.subject.definedName?).Nodup) :
    (entries.map Entry.id).Nodup := by
  -- Only definitions can clash. Without namesakes each is the first of its name, so that its id is
  -- made of nothing but the name.
  have first : ∀ e ∈ entries, ∀ name, e.subject.definedName? = some name →
      e.id = IdFamily.id (.definition name) 0 := by
    intro e inside name defines
    obtain ⟨before, after, rfl⟩ := List.append_of_mem inside
    rw [ids before e after rfl]
    apply Subject.idAfter_of_first defines
    intro f earlier same
    rw [List.filterMap_append, List.filterMap_cons_some (by exact defines)] at names
    have disjoint := (List.nodup_append.mp names).2.2
    exact disjoint name (List.mem_filterMap.mpr ⟨f, earlier, same⟩) name List.mem_cons_self rfl
  refine List.pairwise_map.mpr ((apart.and (List.pairwise_filterMap.mp names)).imp_of_mem ?_)
  rintro e f inE inF ⟨apart, differ⟩ same
  obtain ⟨definesE, definesF⟩ := apart same
  obtain ⟨name, ofE⟩ := Option.ne_none_iff_exists'.mp definesE
  obtain ⟨other, ofF⟩ := Option.ne_none_iff_exists'.mp definesF
  rw [first e inE name ofE, first f inF other ofF] at same
  have chars := congrArg String.toList same
  rw [toList_id, toList_id] at chars
  exact differ name ofE other ofF (String.toList_inj.mp (List.append_cancel_left chars))

/-- The ids of a source map number its entries in document order. The id of an entry that is not of
a definition is its own, and if no name is defined twice all ids are told apart. -/
theorem sourceMap_ids {text : String} {project : Project} {map : SourceMap}
    (built : (tolerant text).built = some (project, map)) :
    (∀ before e after, map.entries = before ++ e :: after →
      e.id = e.subject.idAfter before ∧
        (e.subject.definedName? = none → ∀ f ∈ before ++ after, f.id ≠ e.id)) ∧
      ((project.definitions.map Definition.name).Nodup → (map.entries.map Entry.id).Nodup) := by
  obtain ⟨block, -, rfl, rfl⟩ := exists_block_of_built built
  have apart := block.pairwise_entry_ids text.toList
  refine ⟨fun before e after split => ⟨ProjectBlock.entry_id split, ?_⟩, fun names => ?_⟩
  · intro other f inside same
    dsimp only at split
    rw [split] at apart
    obtain ⟨-, behind, ahead⟩ := List.pairwise_append.mp apart
    rcases List.mem_append.mp inside with earlier | later
    · exact (ahead f earlier e List.mem_cons_self same).2 other
    · exact ((List.pairwise_cons.mp behind).1 f later same.symm).1 other
  · rw [← block.filterMap_definedName?_entries text.toList] at names
    exact nodup_ids (fun _ _ _ split => ProjectBlock.entry_id split) apart names

/-- A project in which the name of a definition looks like a number behind that of another one, and
types differ in case. -/
def namesakesText : String :=
  "project \"P\" \x7b define Component \"Card\" \x7b component Text \x7d\n" ++
  "define Component \"Card-1\" \x7b component TEXT \x7d\n" ++
  "screen Main \x7b layout stack \x7b cell \x7b component Card \x7d cell \x7b \x7d \x7d \x7d \x7d\n"

theorem sourceMap_ids_namesakesText : ∃ project map,
    (tolerant namesakesText).built = some (project, map) ∧
      (project.definitions.map Definition.name).Nodup ∧ (map.entries.map Entry.id).Nodup := by
  have names : (tolerant namesakesText).built.map (·.1.definitions.map Definition.name) =
      some ["Card", "Card-1"] := by decide +kernel
  obtain ⟨⟨project, map⟩, same, defined⟩ := Option.map_eq_some_iff.mp names
  have differ : (project.definitions.map Definition.name).Nodup := by
    rw [defined]
    decide
  exact ⟨project, map, same, differ, (sourceMap_ids same).2 differ⟩

end Wireframe
