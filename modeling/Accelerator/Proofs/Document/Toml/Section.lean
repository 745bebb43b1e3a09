import Accelerator.Document.Toml.Section
import Accelerator.Proofs.Document.Decode

/-!
# Listed fields in a TOML document

Some fields of some tables are *known*. A document may list known fields, each with a key of one part
below the header of its table, and may hold any other statements besides, as long as none of these is
about a known field (`Toml.Splits`).

The known fields make no difference to the other statements. A document in which the other statements
alone are in order is in order itself, and in each of its tables the known fields are the listed ones
(`Toml.exists_entries_of_splits`).
-/

namespace Accelerator.Toml

/-! ## Changing what stands under a name -/

namespace Entries

/-- Put something under a name, in place of what is there. -/
def put (entries : Entries) (name : String) (node : Node) : Entries :=
  if (entries.node? name).isSome then entries.replace name node else entries.add name node

/-- Change what stands under a name, given what is there. -/
def modify (name : String) (change : Option Node → Option Node) (entries : Entries) :
    Option Entries :=
  (change (entries.node? name)).map (entries.put name)

section Put

variable {entries : Entries} {name other : String} {node : Node} {keep : String → Bool}

@[simp] theorem node?_nil (name : String) : node? [] name = none := rfl

theorem node?_cons (entry : String × Node) (rest : Entries) (name : String) :
    node? (entry :: rest) name = if entry.1 = name then some entry.2 else node? rest name := by
  by_cases same : entry.1 = name <;> simp [node?, same]

theorem node?_eq_none_iff : entries.node? name = none ↔ name ∉ entries.map Prod.fst := by
  induction entries with
  | nil => simp
  | cons entry rest ih =>
      rw [node?_cons, List.map_cons, List.mem_cons, not_or, ← ih]
      by_cases same : entry.1 = name
      · simp [same]
      · simp [same, Ne.symm same]

theorem names_put : (entries.put name node).map Prod.fst =
    if (entries.node? name).isSome then entries.map Prod.fst
    else entries.map Prod.fst ++ [name] := by
  unfold put
  split
  · rw [replace, List.map_map]
    refine List.map_congr_left fun entry _ => ?_
    by_cases same : entry.1 = name <;> simp [same]
  · simp [add]

theorem nodup_put (distinct : (entries.map Prod.fst).Nodup) :
    ((entries.put name node).map Prod.fst).Nodup := by
  rw [names_put]
  split
  · exact distinct
  · rename_i absent
    have absent : entries.node? name = none := by simpa using absent
    exact List.nodup_append.mpr ⟨distinct, List.nodup_singleton _, fun a member b single => by
      rw [List.mem_singleton.mp single]
      rintro rfl
      exact node?_eq_none_iff.mp absent member⟩

theorem replace_cons (entry : String × Node) (rest : Entries) :
    replace (entry :: rest) name node =
      (entry.1, if entry.1 = name then node else entry.2) :: rest.replace name node := by
  by_cases same : entry.1 = name <;> simp [replace, same]

theorem node?_replace : (entries.replace name node).node? other =
    if other = name then (entries.node? name).map fun _ => node else entries.node? other := by
  induction entries with
  | nil => simp [replace]
  | cons entry rest ih =>
      rw [replace_cons, node?_cons, node?_cons, node?_cons, ih]
      by_cases here : entry.1 = other
      · subst here
        by_cases same : entry.1 = name <;> simp [same]
      · by_cases same : other = name
        · subst same
          simp [here]
        · simp [here, same]

theorem node?_add : (entries.add name node).node? other =
    (entries.node? other).or (if other = name then some node else none) := by
  induction entries with
  | nil => simp [add, node?_cons, eq_comm]
  | cons entry rest ih =>
      have ih : node? (rest ++ [(name, node)]) other = _ := ih
      rw [add, List.cons_append, node?_cons, node?_cons, ih]
      split <;> rfl

theorem node?_put : (entries.put name node).node? other =
    if other = name then some node else entries.node? other := by
  unfold put
  split
  next present =>
    rw [node?_replace]
    obtain ⟨old, found⟩ := Option.isSome_iff_exists.mp present
    rw [found]
    rfl
  next absent =>
    rw [node?_add]
    have absent : entries.node? name = none := by simpa using absent
    by_cases same : other = name
    · subst same
      simp [absent]
    · simp [same]

theorem replace_of_absent (absent : entries.node? name = none) :
    entries.replace name node = entries := by
  induction entries with
  | nil => rfl
  | cons entry rest ih =>
      rw [node?_cons] at absent
      split at absent
      · cases absent
      next other => rw [replace_cons, if_neg other, ih absent]

/-- What stands under a name can be put there again. -/
theorem put_self (distinct : (entries.map Prod.fst).Nodup) (found : entries.node? name = some node) :
    entries.put name node = entries := by
  rw [put, found, Option.isSome_some, if_pos rfl]
  induction entries with
  | nil => cases found
  | cons entry rest ih =>
      rw [List.map_cons, List.nodup_cons] at distinct
      rw [node?_cons] at found
      rw [replace_cons]
      by_cases same : entry.1 = name
      · rw [if_pos same] at found ⊢
        cases found
        have absent : node? rest name = none := node?_eq_none_iff.mpr (same ▸ distinct.1)
        rw [replace_of_absent absent]
      · rw [if_neg same] at found ⊢
        rw [ih distinct.2 found]

/-! ### Among the entries that are kept -/

theorem node?_filter (kept : keep name = true) :
    node? (entries.filter fun entry => keep entry.1) name = entries.node? name := by
  induction entries with
  | nil => rfl
  | cons entry rest ih =>
      rw [node?_cons, List.filter_cons]
      split
      · rw [node?_cons, ih]
      · rename_i dropped
        have other : entry.1 ≠ name := by
          rintro rfl
          exact dropped kept
        rw [ih, if_neg other]

theorem filter_replace : ((entries.replace name node).filter fun entry => keep entry.1) =
    replace (entries.filter fun entry => keep entry.1) name node := by
  induction entries with
  | nil => rfl
  | cons entry rest ih =>
      rw [replace_cons, List.filter_cons, List.filter_cons, ih]
      cases keep entry.1 with
      | true => exact (replace_cons entry _).symm
      | false => rfl

theorem filter_put_of_kept (kept : keep name = true) :
    ((entries.put name node).filter fun entry => keep entry.1) =
      put (entries.filter fun entry => keep entry.1) name node := by
  rw [put, put, node?_filter kept]
  split
  · exact filter_replace
  · simp [add, kept]

theorem filter_put_of_dropped (dropped : keep name = false) :
    ((entries.put name node).filter fun entry => keep entry.1) =
      entries.filter fun entry => keep entry.1 := by
  rw [put]
  split
  · rw [filter_replace]
    refine replace_of_absent (node?_eq_none_iff.mpr fun member => ?_)
    obtain ⟨entry, among, rfl⟩ := List.mem_map.mp member
    have kept := (List.mem_filter.mp among).2
    rw [dropped] at kept
    cases kept
  · simp [add, dropped]

/-- A change under a kept name is a change among the kept entries. -/
theorem modify_filter (kept : keep name = true) (change : Option Node → Option Node) :
    modify name change (entries.filter fun entry => keep entry.1) =
      (entries.modify name change).map fun entries => entries.filter fun entry => keep entry.1 := by
  rw [modify, modify, node?_filter kept]
  cases change (entries.node? name) with
  | none => rfl
  | some node => exact congrArg some (filter_put_of_kept kept).symm

end Put

/-! ### Where statements lead -/

/-- Enter what stands under a name, and change something there. -/
def enter (dotted : Bool) (update : Origin → Entries → Option Entries) (path : List String) :
    Option Node → Option Node
  | none =>
    let origin := if dotted then .dotted else .implied
    (change? dotted update path origin []).map (.table origin)
  | some (.value _) => none
  | some (.table origin inner) =>
    if dotted && origin == .declared then none
    else (change? dotted update path origin inner).map (.table origin)
  | some (.tables items) =>
    match items.getLast? with
    | none => none
    | some inner =>
      (change? dotted update path .declared inner).map fun inner =>
        .tables (items.dropLast ++ [inner])

theorem change?_cons (dotted : Bool) (update : Origin → Entries → Option Entries) (name : String)
    (path : List String) (origin : Origin) (entries : Entries) :
    change? dotted update (name :: path) origin entries =
      entries.modify name (enter dotted update path) := by
  rw [change?, modify]
  cases found : entries.node? name with
  | none =>
      simp only [enter, Option.map_map]
      congr 1
      funext inner
      simp [put, found]
  | some node =>
      cases node with
      | value => rfl
      | table origin inner =>
          simp only [enter]
          split
          · rfl
          · rw [Option.map_map]
            congr 1
            funext inner
            simp [put, found]
      | tables items =>
          simp only [enter]
          cases items.getLast? with
          | none => rfl
          | some inner =>
              simp only [Option.map_map]
              congr 1
              funext inner
              simp [put, found]

/-- A change of entries that has to do with one name only. -/
def Touches (name : String) (update : Entries → Option Entries) : Prop :=
  ∃ change, ∀ entries, update entries = modify name change entries

section Touches

variable {name : String} {update : Entries → Option Entries} (keep : String → Bool)
  (inner : Entries) {inner' : Entries}

/-- A change that has to do with a kept name goes the same way among the kept entries. -/
theorem Touches.filter (touches : Touches name update) (kept : keep name = true) :
    update (inner.filter fun entry => keep entry.1) =
      (update inner).map fun entries => entries.filter fun entry => keep entry.1 := by
  obtain ⟨change, same⟩ := touches
  rw [same, same, modify_filter kept]

/-- It makes no difference to what is kept if its own name is not. -/
theorem Touches.filter_eq (touches : Touches name update) (dropped : keep name = false)
    (done : update inner = some inner') :
    (inner'.filter fun entry => keep entry.1) = inner.filter fun entry => keep entry.1 := by
  obtain ⟨change, same⟩ := touches
  rw [same] at done
  obtain ⟨node, -, rfl⟩ := Option.map_eq_some_iff.mp done
  exact filter_put_of_dropped dropped

end Touches

/-- A change that works inside of a table, on one name there. -/
def WorksInside (name : String) (change : Option Node → Option Node) : Prop :=
  ∃ (fresh : Origin) (enters : Origin → Bool) (update : Origin → Entries → Option Entries),
    (∀ origin, Touches name (update origin)) ∧
      change none = (update fresh []).map (.table fresh) ∧
      ∀ origin inner, change (some (.table origin inner)) =
        if enters origin then (update origin inner).map (.table origin) else none

/-- A change of entries that leads along a path: it has to do with the first name, and where there are
more, it works inside of that on the second one. -/
def LeadsAlong (path : List String) (update : Entries → Option Entries) : Prop :=
  ∃ name more change, path = name :: more ∧
    (∀ entries, update entries = modify name change entries) ∧
    ∀ next others, more = next :: others → WorksInside next change

theorem leadsAlong_modify (name : String) (change : Option Node → Option Node) :
    LeadsAlong [name] (modify name change) := ⟨name, [], change, rfl, fun _ => rfl, nofun⟩

theorem LeadsAlong.touches {name : String} {more : List String} {update : Entries → Option Entries}
    (leads : LeadsAlong (name :: more) update) : Touches name update := by
  obtain ⟨_, _, change, same, each, -⟩ := leads
  cases same
  exact ⟨change, each⟩

/-- What is changed at the end of a path leads along all of it. -/
theorem leadsAlong_change? (dotted : Bool) {update : Origin → Entries → Option Entries}
    {ending : List String} (leads : ∀ origin, LeadsAlong ending (update origin))
    (path : List String) (origin : Origin) :
    LeadsAlong (path ++ ending) (change? dotted update path origin) := by
  induction path generalizing origin with
  | nil => exact leads origin
  | cons name path ih =>
      refine ⟨name, path ++ ending, enter dotted update path, rfl,
        change?_cons dotted update name path origin, ?_⟩
      intro next others same
      refine ⟨if dotted then .dotted else .implied, fun origin => !(dotted && origin == .declared),
        change? dotted update path, fun origin => (same ▸ ih origin).touches, rfl,
        fun origin inner => ?_⟩
      cases dotted <;> cases origin <;> rfl

/-! ### Updates at the end of a path -/

/-- Declare a table where none is declared yet. -/
def declareNode : Option Node → Option Node
  | none => some (.table .declared [])
  | some (.table .implied inner) => some (.table .declared inner)
  | some _ => none

theorem declare?_eq (key : Key) (entries : Entries) : entries.declare? key =
    change? false (fun _ => modify key.name declareNode) key.path .declared entries := by
  rw [declare?]
  congr 1
  funext _ entries
  rw [modify]
  cases found : entries.node? key.name with
  | none => simp [declareNode, put, found]
  | some node =>
      cases node with
      | table origin inner => cases origin <;> simp [declareNode, put, found]
      | _ => rfl

/-- A further table in a list of tables. -/
def extendNode : Option Node → Option Node
  | none => some (.tables [[]])
  | some (.tables items) => some (.tables (items ++ [[]]))
  | some _ => none

theorem extend?_eq (key : Key) (entries : Entries) : entries.extend? key =
    change? false (fun _ => modify key.name extendNode) key.path .declared entries := by
  rw [extend?]
  congr 1
  funext _ entries
  rw [modify]
  cases found : entries.node? key.name with
  | none => simp [extendNode, put, found]
  | some node =>
      cases node with
      | tables items => simp [extendNode, put, found]
      | _ => rfl

/-- Write an entry where there is none. -/
def writeNode (short : Bool) (value : Tree) (origin : Origin) : Option Node → Option Node
  | none => if (origin == .dotted) == short then none else some (.value value)
  | some _ => none

theorem write?_eq (key : Key) (value : Tree) (origin : Origin) (entries : Entries) :
    entries.write? key value origin =
      change? true (fun origin => modify key.name (writeNode key.path.isEmpty value origin))
        key.path origin entries := by
  rw [write?]
  congr 1
  funext origin entries
  rw [modify]
  cases found : entries.node? key.name with
  | none =>
      simp only [writeNode]
      split
      · rfl
      · simp [put, found]
  | some node => simp [writeNode]

/-! ### Statements -/

theorem leadsAlong_declare? (key : Key) :
    LeadsAlong (key.path ++ [key.name]) (declare? key) := by
  have leads := leadsAlong_change? false
    (fun _ => leadsAlong_modify key.name declareNode) key.path .declared
  rwa [← funext (declare?_eq key)] at leads

theorem leadsAlong_extend? (key : Key) :
    LeadsAlong (key.path ++ [key.name]) (extend? key) := by
  have leads := leadsAlong_change? false
    (fun _ => leadsAlong_modify key.name extendNode) key.path .declared
  rwa [← funext (extend?_eq key)] at leads

theorem leadsAlong_write? (key : Key) (value : Tree) (origin : Origin) :
    LeadsAlong (key.path ++ [key.name]) (write? key value origin) := by
  have leads := leadsAlong_change? true (fun origin =>
    leadsAlong_modify key.name (writeNode key.path.isEmpty value origin)) key.path origin
  rwa [← funext (write?_eq key value origin)] at leads

end Entries

/-- The path of what a statement adds, given the path of the table that entries go to. -/
def Statement.target (current : List String) : Statement → List String
  | .table key | .tables key => key.path ++ [key.name]
  | .entry key _ => current ++ (key.path ++ [key.name])

/-- The path of the table that entries go to after a statement. -/
def Statement.after (current : List String) : Statement → List String
  | .table key | .tables key => key.path ++ [key.name]
  | .entry _ _ => current

/-- A statement leads along the path of what it adds. -/
theorem exists_update (st : Statement) (current : List String) : ∃ update,
    Entries.LeadsAlong (st.target current) update ∧ ∀ entries, Draft.add? ⟨entries, current⟩ st =
      (update entries).map fun entries => ⟨entries, st.after current⟩ := by
  cases st with
  | table key =>
      refine ⟨_, Entries.leadsAlong_declare? key, fun entries => ?_⟩
      simp only [Draft.add?]
      cases Entries.declare? key entries <;> rfl
  | tables key =>
      refine ⟨_, Entries.leadsAlong_extend? key, fun entries => ?_⟩
      simp only [Draft.add?]
      cases Entries.extend? key entries <;> rfl
  | entry key value =>
      refine ⟨_, Entries.leadsAlong_change? false (Entries.leadsAlong_write? key value) current .declared,
        fun entries => ?_⟩
      simp only [Draft.add?]
      cases Entries.change? false (Entries.write? key value) current .declared entries <;> rfl

theorem current_add? {draft next : Draft} {st : Statement} (added : draft.add? st = some next) :
    next.current = st.after draft.current := by
  obtain ⟨update, -, adds⟩ := exists_update st draft.current
  have mapped := (adds draft.entries).symm.trans added
  obtain ⟨entries, -, rfl⟩ := Option.map_eq_some_iff.mp mapped
  rfl

/-! ## Without the known fields -/

section Known

-- whether a table of the first name has a known field of the second one
variable (known : String → String → Bool)

/-- What stands under a name, without known fields. -/
def Node.hide (name : String) : Node → Node
  | .table origin inner => .table origin (inner.filter fun entry => !known name entry.1)
  | node => node

namespace Entries

/-- The entries without known fields. -/
def hide (entries : Entries) : Entries :=
  entries.map fun entry => (entry.1, entry.2.hide known entry.1)

/-- The known fields of the table under a name. -/
def knownOf (name : String) : Option Node → Entries
  | some (.table _ inner) => inner.filter fun entry => known name entry.1
  | _ => []

variable {known} {entries : Entries} {name other : String} {node : Node}

theorem node?_hide : (entries.hide known).node? name =
    (entries.node? name).map (Node.hide known name) := by
  induction entries with
  | nil => rfl
  | cons entry rest ih =>
      rw [hide, List.map_cons, node?_cons, node?_cons]
      split
      next same => rw [same]; rfl
      · exact ih

theorem hide_replace : hide known (entries.replace name node) =
    (entries.hide known).replace name (node.hide known name) := by
  induction entries with
  | nil => rfl
  | cons entry rest ih =>
      rw [replace_cons, hide, List.map_cons, hide, List.map_cons, replace_cons]
      refine congrArg₂ List.cons ?_ ih
      dsimp only
      split
      next same => rw [same]
      · rfl

theorem hide_put : hide known (entries.put name node) =
    (entries.hide known).put name (node.hide known name) := by
  rw [put, put, node?_hide, Option.isSome_map]
  split
  · exact hide_replace
  · simp [hide, add]

/-- Under a name without known fields there is nothing to hide. -/
theorem hide_of_unknown (unknown : ∀ field, known name field = false) (node : Node) :
    node.hide known name = node := by
  cases node with
  | table origin inner =>
      have all : (inner.filter fun entry => !known name entry.1) = inner :=
        List.filter_eq_self.mpr fun entry _ => by simp [unknown]
      rw [Node.hide, all]
  | _ => rfl

/-- A change makes no difference to the known fields under a name, and they make none to it. What
stands there becomes a table, and remains one that is declared. -/
def Respects (known : String → String → Bool) (name : String)
    (change : Option Node → Option Node) : Prop :=
  ∀ (old : Option Node), (∀ node, old = some node → ∃ origin inner, node = .table origin inner) →
    ∀ hidden, change (old.map (Node.hide known name)) = some hidden →
      ∃ origin inner, change old = some (.table origin inner) ∧
        hidden = (Node.table origin inner).hide known name ∧
        knownOf known name (some (.table origin inner)) = knownOf known name old ∧
        ∀ inner, old = some (.table .declared inner) → origin = .declared

theorem respects_declareNode (name : String) : Respects known name declareNode := by
  intro old tables hidden changed
  cases old with
  | none =>
      cases changed
      exact ⟨.declared, [], rfl, rfl, rfl, nofun⟩
  | some node =>
      obtain ⟨origin, inner, rfl⟩ := tables node rfl
      cases origin with
      | implied =>
          cases changed
          exact ⟨.declared, inner, rfl, rfl, rfl, nofun⟩
      | _ => cases changed

theorem exists_of_declareNode {old : Option Node} (declares : declareNode old = some node) :
    ∃ inner, node = .table .declared inner := by
  unfold declareNode at declares
  split at declares
  · cases declares
    exact ⟨[], rfl⟩
  · cases declares
    exact ⟨_, rfl⟩
  · cases declares

/-- What works inside of a table on an unknown field respects the known ones. -/
theorem WorksInside.respects {field : String} {change : Option Node → Option Node}
    (works : WorksInside field change) (unknown : known name field = false) :
    Respects known name change := by
  obtain ⟨fresh, enters, update, touches, starts, goes_on⟩ := works
  have kept : (!known name field) = true := by simp [unknown]
  intro old tables hidden changed
  cases old with
  | none =>
      have changed : change none = some hidden := changed
      rw [starts] at changed
      obtain ⟨inner, done, rfl⟩ := Option.map_eq_some_iff.mp changed
      have among := (touches fresh).filter (fun field => !known name field) [] kept
      rw [List.filter_nil, done] at among
      refine ⟨fresh, inner, by rw [starts, done]; rfl, ?_, ?_, nofun⟩
      · rw [Node.hide]
        exact congrArg _ (Option.some.inj among)
      · exact (touches fresh).filter_eq (known name) [] unknown done
  | some node =>
      obtain ⟨origin, inner, rfl⟩ := tables node rfl
      have changed : change (some (.table origin (inner.filter fun entry => !known name entry.1))) =
          some hidden := changed
      rw [goes_on] at changed
      split at changed
      next enter =>
        rw [(touches origin).filter (fun field => !known name field) inner kept] at changed
        obtain ⟨_, among, rfl⟩ := Option.map_eq_some_iff.mp changed
        obtain ⟨inner', done, rfl⟩ := Option.map_eq_some_iff.mp among
        refine ⟨origin, inner', by rw [goes_on, if_pos enter, done]; rfl, rfl, ?_, ?_⟩
        · exact (touches origin).filter_eq (known name) inner unknown done
        · intro _ same
          cases same
          rfl
      · cases changed

theorem knownOf_of_unknown (unknown : ∀ field, known name field = false) (node : Option Node) :
    knownOf known name node = [] := by
  rcases node with _ | node
  · rfl
  · cases node with
    | table origin inner => exact List.filter_eq_nil_iff.mpr fun entry _ => by simp [unknown]
    | _ => rfl

end Entries

/-- A path that leads to no known field, and to no table that has any. -/
def Unknown : List String → Prop
  | [] => False
  | [name] => ∀ field, known name field = false
  | name :: field :: _ => known name field = false

/-- A statement that is about no known field. It may be the header of a table. -/
def Statement.IsOther (current : List String) (st : Statement) : Prop :=
  Unknown known (st.target current) ∨ ∃ name, st = .table ⟨[], name⟩

/-- Statements are split into those that list known fields, each in the table that it belongs to, and
others. A listed field is given by the name of the table, its own name and its value. -/
inductive Splits : List String → List Statement → List (String × String × Tree) →
    List Statement → Prop
  | nil {current} : Splits current [] [] []
  | field {name field value statements fields others} : known name field = true →
      Splits [name] statements fields others →
      Splits [name] (.entry ⟨[], field⟩ value :: statements) ((name, field, value) :: fields) others
  | other {current st statements fields others} : st.IsOther known current →
      Splits (st.after current) statements fields others →
      Splits current (st :: statements) fields (st :: others)

/-- Those of the listed fields that belong to a table. -/
def listedIn (name : String) (fields : List (String × String × Tree)) : List (String × Tree) :=
  (fields.filter fun field => field.1 == name).map Prod.snd

/-- A draft without the listed fields goes along with the full one. -/
structure Simulates (fields : List (String × String × Tree)) (draft full : Draft) : Prop where
  entries : draft.entries = full.entries.hide known
  current : draft.current = full.current
  distinct : (full.entries.map Prod.fst).Nodup
  tables : ∀ {name field}, known name field = true → ∀ node, full.entries.node? name = some node →
    ∃ origin inner, node = .table origin inner
  listed : ∀ name, Entries.knownOf known name (full.entries.node? name) =
    (listedIn name fields).map fun field => (field.1, .value field.2)
  opened : ∀ {name field}, known name field = true → full.current = [name] →
    ∃ inner, full.entries.node? name = some (.table .declared inner)

variable {known} {fields : List (String × String × Tree)} {draft full : Draft}

/-- What a change makes of the node in the draft is what it makes of the node in the full one, without
the known fields. These stay as they are. -/
theorem Simulates.exists_change (sim : Simulates known fields draft full) {name : String}
    {change : Option Node → Option Node}
    (respects : (∀ field, known name field = false) ∨ Entries.Respects known name change)
    {hidden : Node}
    (found : change ((full.entries.node? name).map (Node.hide known name)) = some hidden) :
    ∃ new, change (full.entries.node? name) = some new ∧ hidden = new.hide known name ∧
      Entries.knownOf known name (some new) =
        Entries.knownOf known name (full.entries.node? name) ∧
      (∀ field, known name field = true → ∃ origin inner, new = .table origin inner) ∧
      ∀ field, known name field = true →
        (∃ inner, full.entries.node? name = some (.table .declared inner)) →
          ∃ inner, new = .table .declared inner := by
  by_cases unknown : ∀ field, known name field = false
  · have none_known : ∀ {p : Prop} {field}, known name field = true → p := fun is_known => by
      rw [unknown] at is_known
      cases is_known
    have nothing : (full.entries.node? name).map (Node.hide known name) =
        full.entries.node? name := by
      cases full.entries.node? name with
      | none => rfl
      | some node => exact congrArg some (Entries.hide_of_unknown unknown node)
    rw [nothing] at found
    refine ⟨hidden, found, (Entries.hide_of_unknown unknown hidden).symm, ?_,
      fun _ => none_known, fun _ => none_known⟩
    rw [Entries.knownOf_of_unknown unknown, Entries.knownOf_of_unknown unknown]
  · obtain ⟨field, is_known⟩ := Classical.not_forall.mp unknown
    have is_known : known name field = true := by simpa using is_known
    obtain ⟨origin, inner, there, same, listed, remains⟩ :=
      (respects.resolve_left unknown) _ (sim.tables is_known) hidden found
    refine ⟨_, there, same, listed, fun _ _ => ⟨origin, inner, rfl⟩, ?_⟩
    rintro _ _ ⟨old, declared⟩
    rw [remains old declared]
    exact ⟨inner, rfl⟩

/-- One change of both drafts, under a name without known fields or with respect for these. -/
theorem Simulates.step (sim : Simulates known fields draft full) {st : Statement} {name : String}
    {change : Option Node → Option Node}
    (adds : ∀ entries, Draft.add? ⟨entries, draft.current⟩ st =
      (Entries.modify name change entries).map fun entries => ⟨entries, st.after draft.current⟩)
    (respects : (∀ field, known name field = false) ∨ Entries.Respects known name change)
    (opens : ∀ {other field}, known other field = true → st.after draft.current = [other] →
      draft.current = [other] ∨
        other = name ∧ ∀ old node, change old = some node → ∃ inner, node = .table .declared inner)
    {draft' : Draft} (done : draft.add? st = some draft') :
    ∃ full', full.add? st = some full' ∧ Simulates known fields draft' full' := by
  have changed := (adds draft.entries).symm.trans done
  obtain ⟨entries', modified, rfl⟩ := Option.map_eq_some_iff.mp changed
  obtain ⟨hidden, found, rfl⟩ := Option.map_eq_some_iff.mp modified
  rw [sim.entries, Entries.node?_hide] at found
  obtain ⟨new, there, rfl, same, table, remains⟩ := sim.exists_change respects found
  have after : full.add? st = some ⟨full.entries.put name new, st.after draft.current⟩ := by
    have here := adds full.entries
    rw [sim.current] at here ⊢
    rw [here, Entries.modify, there]
    rfl
  refine ⟨_, after, ?_, rfl, Entries.nodup_put sim.distinct, ?_, ?_, ?_⟩
  · rw [sim.entries]
    exact Entries.hide_put.symm
  · intro other field is_known node found
    rw [Entries.node?_put] at found
    split at found
    next here =>
      cases found
      exact table field (here ▸ is_known)
    next => exact sim.tables is_known node found
  · intro other
    rw [Entries.node?_put]
    split
    next here => rw [here, same, sim.listed]
    next => exact sim.listed other
  · intro other field is_known path
    rw [Entries.node?_put]
    rcases opens is_known path with stays | ⟨rfl, declares⟩
    · have declared := sim.opened is_known (sim.current.symm.trans stays)
      split
      next here =>
        subst here
        obtain ⟨inner, table⟩ := remains field is_known declared
        exact ⟨inner, congrArg some table⟩
      next => exact declared
    · obtain ⟨inner, table⟩ := declares _ new there
      rw [if_pos rfl, table]
      exact ⟨inner, rfl⟩

theorem add?_header (name : String) (current : List String) (entries : Entries) :
    Draft.add? ⟨entries, current⟩ (.table ⟨[], name⟩) =
      (Entries.modify name Entries.declareNode entries).map fun entries => ⟨entries, [name]⟩ := by
  have declares : entries.declare? ⟨[], name⟩ = Entries.modify name Entries.declareNode entries :=
    Entries.declare?_eq ⟨[], name⟩ entries
  simp only [Draft.add?, declares]
  cases Entries.modify name Entries.declareNode entries <;> rfl

theorem Simulates.other (sim : Simulates known fields draft full) {st : Statement}
    (other : st.IsOther known draft.current) {draft' : Draft} (done : draft.add? st = some draft') :
    ∃ full', full.add? st = some full' ∧ Simulates known fields draft' full' := by
  rcases other with unknown | ⟨name, rfl⟩
  · obtain ⟨update, ⟨name, more, change, path, each, inside⟩, adds⟩ :=
      exists_update st draft.current
    rw [path] at unknown
    refine sim.step (fun entries => (adds entries).trans (by rw [each])) ?_ ?_ done
    · cases more with
      | nil => exact .inl unknown
      | cons field others => exact .inr ((inside field others rfl).respects unknown)
    · intro other field is_known after
      cases st with
      | entry key value => exact .inl after
      | table key =>
          have target : (Statement.table key).target draft.current = [other] := after
          rw [path] at target
          cases target
          rw [unknown] at is_known
          cases is_known
      | tables key =>
          have target : (Statement.tables key).target draft.current = [other] := after
          rw [path] at target
          cases target
          rw [unknown] at is_known
          cases is_known
  · refine sim.step (add?_header name draft.current) (.inr (Entries.respects_declareNode name)) ?_ done
    rintro other field - ⟨⟩
    exact .inr ⟨rfl, fun _ _ => Entries.exists_of_declareNode⟩

theorem add?_field {name : String} {inner entries : Entries}
    (table : entries.node? name = some (.table .declared inner)) {field : String}
    (absent : inner.node? field = none) (value : Tree) :
    Draft.add? ⟨entries, [name]⟩ (.entry ⟨[], field⟩ value) =
      some ⟨entries.put name (.table .declared (inner.add field (.value value))), [name]⟩ := by
  have written : Entries.write? ⟨[], field⟩ value .declared inner =
      some (inner.add field (.value value)) := by
    have writes : Entries.write? ⟨[], field⟩ value .declared inner =
        Entries.modify field (Entries.writeNode true value .declared) inner :=
      Entries.write?_eq ⟨[], field⟩ value .declared inner
    rw [writes, Entries.modify, absent]
    simp [Entries.writeNode, Entries.put, absent]
  have entered : Entries.enter false (Entries.write? ⟨[], field⟩ value) []
      (some (.table .declared inner)) = some (.table .declared (inner.add field (.value value))) :=
    congrArg (Option.map (Node.table .declared)) written
  simp only [Draft.add?, Entries.change?_cons, Entries.modify, table, entered, Option.map_some]
  rfl

theorem listedIn_append (name : String) (fields : List (String × String × Tree))
    (field : String × String × Tree) : listedIn name (fields ++ [field]) =
      listedIn name fields ++ if field.1 = name then [field.2] else [] := by
  by_cases same : field.1 = name <;> simp [listedIn, same]

/-- A known field is listed below the header of its table. -/
theorem Simulates.field (sim : Simulates known fields draft full) {name field : String}
    (is_known : known name field = true) (here : draft.current = [name])
    (fresh : field ∉ (listedIn name fields).map Prod.fst) (value : Tree) :
    ∃ full', full.add? (.entry ⟨[], field⟩ value) = some full' ∧
      Simulates known (fields ++ [(name, field, value)]) draft full' := by
  have here : full.current = [name] := sim.current.symm.trans here
  obtain ⟨inner, table⟩ := sim.opened is_known here
  have listed := sim.listed name
  rw [table] at listed
  have absent : Entries.node? inner field = none := by
    refine Entries.node?_eq_none_iff.mpr fun member => fresh ?_
    obtain ⟨entry, among, rfl⟩ := List.mem_map.mp member
    have kept : entry ∈ Entries.knownOf known name (some (.table .declared inner)) :=
      List.mem_filter.mpr ⟨among, is_known⟩
    rw [listed] at kept
    obtain ⟨written, written_there, rfl⟩ := List.mem_map.mp kept
    exact List.mem_map_of_mem written_there
  obtain ⟨entries, current⟩ := full
  cases here
  refine ⟨_, add?_field table absent value, ?_, sim.current, Entries.nodup_put sim.distinct, ?_, ?_,
    ?_⟩
  · have hidden : (Node.table .declared (Entries.add inner field (.value value))).hide known name =
        (Node.table .declared inner).hide known name := by
      simp [Node.hide, Entries.add, is_known]
    rw [sim.entries, Entries.hide_put, hidden, ← Entries.hide_put,
      Entries.put_self sim.distinct table]
  · intro other _ is_known node found
    rw [Entries.node?_put] at found
    split at found
    · cases found
      exact ⟨.declared, _, rfl⟩
    · exact sim.tables is_known node found
  · intro other
    rw [Entries.node?_put, listedIn_append, List.map_append]
    split
    next same =>
      subst same
      rw [if_pos rfl, ← listed]
      simp [Entries.knownOf, Entries.add, is_known]
    next differs =>
      rw [if_neg (Ne.symm differs), List.map_nil, List.append_nil]
      exact sim.listed other
  · intro other _ is_known path
    rw [Entries.node?_put]
    split
    · exact ⟨_, rfl⟩
    · exact sim.opened is_known path

/-- Two drafts go along with each other over a whole document. -/
theorem Splits.exists_simulates {current : List String} {statements others : List Statement}
    {more : List (String × String × Tree)} (splits : Splits known current statements more others)
    (here : draft.current = current) (sim : Simulates known fields draft full)
    (distinct : ((fields ++ more).map fun field => (field.1, field.2.1)).Nodup) {draft' : Draft}
    (done : others.foldlM Draft.add? draft = some draft') :
    ∃ full', statements.foldlM Draft.add? full = some full' ∧
      Simulates known (fields ++ more) draft' full' := by
  induction splits generalizing fields draft full with
  | nil =>
      cases done
      exact ⟨full, rfl, by simpa using sim⟩
  | @field name field value statements more others is_known _ ih =>
      have fresh : field ∉ (listedIn name fields).map Prod.fst := fun member => by
        obtain ⟨_, among, rfl⟩ := List.mem_map.mp member
        obtain ⟨earlier, within, rfl⟩ := List.mem_map.mp among
        obtain ⟨earlier_there, same⟩ := List.mem_filter.mp within
        have same : earlier.1 = name := by simpa using same
        rw [List.map_append, List.map_cons, List.nodup_append] at distinct
        exact distinct.2.2 _ (List.mem_map_of_mem earlier_there) _ (.head _) (by rw [same])
      obtain ⟨next, added, sim⟩ := sim.field is_known here fresh value
      rw [List.append_cons] at distinct ⊢
      obtain ⟨full', runs, sim⟩ := ih here sim distinct done
      exact ⟨full', by rw [List.foldlM_cons, added]; exact runs, sim⟩
  | @other current st statements more others other _ ih =>
      obtain ⟨between, added, done⟩ := Option.bind_eq_some_iff.mp done
      obtain ⟨next, full_added, sim⟩ := sim.other (here ▸ other) added
      have after : between.current = st.after current := by
        rw [← here]
        exact current_add? added
      obtain ⟨full', runs, sim⟩ := ih after sim distinct done
      exact ⟨full', by rw [List.foldlM_cons, full_added]; exact runs, sim⟩

/-! ## The tree of a document -/

theorem entriesToTrees_eq_map (entries : Entries) :
    entriesToTrees entries = entries.map fun entry => (entry.1, entry.2.toTree) := by
  induction entries with
  | nil => rw [entriesToTrees, List.map_nil]
  | cons entry rest ih => rw [entriesToTrees, ih, List.map_cons]

theorem lookup_entriesToTrees (entries : Entries) (name : String) :
    (entriesToTrees entries).lookup name = (entries.node? name).map Node.toTree := by
  rw [entriesToTrees_eq_map]
  induction entries with
  | nil => rfl
  | cons entry rest ih =>
      rw [List.map_cons, List.lookup_cons, Entries.node?_cons, ih]
      by_cases same : entry.1 = name
      · simp [same]
      · have differs : (name == entry.1) = false := by simpa using Ne.symm same
        simp [same, differs]

/-- What a table holds of the known fields of its name, if it is there. -/
def HoldsListed (known : String → Bool) (fields : List (String × Tree)) : Option Tree → Prop
  | none => fields = []
  | some (.table entries) => (entries.filter fun entry => known entry.1) = fields
  | some _ => False

/-- The table under a name holds the listed fields of that name. -/
theorem Simulates.holdsListed (sim : Simulates known fields draft full) {name field : String}
    (is_known : known name field = true) : HoldsListed (known name) (listedIn name fields)
      ((full.entries.node? name).map Node.toTree) := by
  have listed := sim.listed name
  cases found : full.entries.node? name with
  | none =>
      rw [found] at listed
      exact List.map_eq_nil_iff.mp listed.symm
  | some node =>
      obtain ⟨origin, inner, rfl⟩ := sim.tables is_known node found
      rw [found] at listed
      have listed : (inner.filter fun entry => known name entry.1) = _ := listed
      have same : ((entriesToTrees inner).filter fun entry => known name entry.1) =
          entriesToTrees (inner.filter fun entry => known name entry.1) := by
        rw [entriesToTrees_eq_map, entriesToTrees_eq_map, List.filter_map]
        rfl
      rw [Option.map_some, Node.toTree, HoldsListed, same, listed, entriesToTrees_eq_map,
        List.map_map]
      refine (List.map_congr_left fun entry _ => ?_).trans (List.map_id _)
      show (entry.1, (Node.value entry.2).toTree) = entry
      rw [Node.toTree]

/-- A document in which known fields are listed denotes a table if it does so without these. In each
table with known fields the known ones are the listed ones. -/
theorem exists_entries_of_splits {statements others : List Statement}
    (splits : Splits known [] statements fields others)
    (distinct : (fields.map fun field => (field.1, field.2.1)).Nodup)
    (valid : (ofStatements? others).isSome) :
    ∃ entries, ofStatements? statements = some (.table entries) ∧
      ∀ name field, known name field = true → ∃ part? : Option Tree,
        Tree.valuesOf name entries = part?.toList ∧
          HoldsListed (known name) (listedIn name fields) part? := by
  obtain ⟨t, denotes⟩ := Option.isSome_iff_exists.mp valid
  obtain ⟨draft, done, -⟩ := Option.bind_eq_some_iff.mp denotes
  have start : Simulates known [] {} {} := {
    entries := rfl
    current := rfl
    distinct := List.nodup_nil
    tables := nofun
    listed := fun _ => rfl
    opened := nofun }
  obtain ⟨full, runs, sim⟩ := splits.exists_simulates rfl start distinct done
  rw [List.nil_append] at sim
  refine ⟨entriesToTrees full.entries, by rw [ofStatements?, runs]; rfl, fun name field is_known =>
    ⟨(full.entries.node? name).map Node.toTree, ?_, sim.holdsListed is_known⟩⟩
  rw [← lookup_entriesToTrees]
  refine Tree.valuesOf_eq_toList ?_
  simpa [entriesToTrees_eq_map, Function.comp_def] using sim.distinct

end Known

end Accelerator.Toml
