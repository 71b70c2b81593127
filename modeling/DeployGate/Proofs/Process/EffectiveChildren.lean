import DeployGate.Proofs.Process.InteriorSteps

/-!
# Children that count

Of the children of a step the checks look at the last attribute `name` and at the last block
`action`, and of the children of that block at the last attribute `action_type`.  All other
children, the order of children that are found by other keys, labels, lines, the names of steps
and what stands between the steps can be edited, and the verdict stays.

Main results:

- Definitions `Section.Edit` and `Document.Edit`: one edit of a block and of a document.
- Theorem `Section.Edit.agree`: an edit of a block changes nothing of what is read of it.
- Theorem `Document.Edit.map_seen_steps`: an edit of a document changes nothing of what is seen of
  its steps.
- Theorem `Gate.checkDocument_of_edits`: a document comes out of the checks as it did before any
  edits.
-/

namespace DeployGate

namespace Ocl

/-! ## Keys -/

/-- What a child of a block is found by: whether it is an attribute or a block, and its name. -/
inductive Key where
  | attribute (name : Text)
  | block (name : Text)
  deriving DecidableEq, Repr

/-- What a part of a document is found by. -/
def Node.key : Node → Key
  | .attribute a => .attribute a.name
  | .block b => .block b.name

/-- The last of some parts with a key. -/
def Key.last? (k : Key) (ns : List Node) : Option Node :=
  (ns.filter fun n => n.key = k).getLast?

namespace Key

variable {k : Key} {n c d : Node} {ns before after : List Node}

/-- The last part with a key is in the later parts, or it is the first one. -/
theorem last?_cons (k : Key) (n : Node) (ns : List Node) :
    k.last? (n :: ns) = (k.last? ns).or (if n.key = k then some n else none) := by
  rw [last?, last?, List.filter_cons]
  by_cases hn : n.key = k
  · simp [hn, List.getLast?_cons, Option.or_some]
  · simp [hn]

/-- The last part with a key is behind, or it is in front. -/
theorem last?_append (k : Key) (ns ms : List Node) :
    k.last? (ns ++ ms) = (k.last? ms).or (k.last? ns) := by
  rw [last?, List.filter_append, List.getLast?_append]
  rfl

/-- Some part is the last one with a key that some part has. -/
theorem last?_isSome (hn : n ∈ ns) (hk : n.key = k) : (k.last? ns).isSome := by
  have hne : ns.filter (fun n => n.key = k) ≠ [] :=
    List.ne_nil_of_mem (List.mem_filter.mpr ⟨hn, by simpa using hk⟩)
  rw [last?, List.getLast?_isSome]
  exact hne

/-- A part that another one with its key stands behind is not the last one with any key. -/
theorem last?_drop (hd : d ∈ after) (hkey : d.key = c.key) (k : Key) :
    k.last? (before ++ c :: after) = k.last? (before ++ after) := by
  rw [last?_append, last?_append, last?_cons]
  by_cases hk : c.key = k
  · rcases Option.isSome_iff_exists.mp (last?_isSome hd (hkey.trans hk)) with ⟨m, hm⟩
    rw [hm]
    rfl
  · rw [if_neg hk, Option.or_none]

/-- A part is not the last one with another key. -/
theorem last?_insert (hk : c.key ≠ k) (before after : List Node) :
    k.last? (before ++ c :: after) = k.last? (before ++ after) := by
  rw [last?_append, last?_append, last?_cons, if_neg hk, Option.or_none]

/-- Of two parts with one key, each in the place of the other, both are the last one with the
key or none is. -/
theorem last?_replace (hkey : c.key = k) (hkey' : d.key = k) (before after : List Node) :
    k.last? (before ++ c :: after) = some c ∧ k.last? (before ++ d :: after) = some d ∨
      k.last? (before ++ c :: after) = k.last? (before ++ d :: after) := by
  simp only [last?_append, last?_cons, if_pos hkey, if_pos hkey']
  cases k.last? after with
  | none => exact .inl ⟨rfl, rfl⟩
  | some m => exact .inr rfl

end Key

namespace Section

variable {b c d : Block} {k : Key} {name : Text}

/-- The last child of a block with a key. -/
def child? (b : Block) (k : Key) : Option Node :=
  k.last? b.children

/-- Where something is selected of every part with a key, the first selected thing is that of the
first part with the key. -/
theorem findSome?_eq_bind_find? {β : Type} {select : Node → Option β}
    (hselect : ∀ n, n.key = k → (select n).isSome) (ns : List Node) :
    ns.findSome? (fun n => if n.key = k then select n else none) =
      (ns.find? fun n => n.key = k).bind select := by
  induction ns with
  | nil => rfl
  | cons n ns ih =>
      rw [List.findSome?_cons, List.find?_cons]
      by_cases hn : n.key = k
      · rcases Option.isSome_iff_exists.mp (hselect n hn) with ⟨b, hb⟩
        simp [hn, hb]
      · simp [hn, ih]

/-- The last attribute with a name is the last child with its key. -/
theorem attribute?_eq_child? (b : Block) (name : Text) :
    b.attribute? name = (b.child? (.attribute name)).bind Node.attribute? := by
  have hfilter : (fun n : Node => n.attribute?.filter fun a => a.name == name) =
      fun n => if n.key = .attribute name then n.attribute? else none := by
    funext n
    cases n <;> simp [Node.attribute?, Node.key, Option.filter]
  have hselect : ∀ n : Node, n.key = .attribute name → n.attribute?.isSome := by
    intro n hn
    rcases n with a | b
    · rfl
    · exact absurd hn (by simp [Node.key])
  rw [attribute?, List.filter_filterMap, hfilter, List.getLast?_filterMap,
    findSome?_eq_bind_find? hselect, child?, Key.last?, List.getLast?_filter]

/-- The last block with a name is the last child with its key. -/
theorem block?_eq_child? (b : Block) (name : Text) :
    b.block? name = (b.child? (.block name)).bind Node.block? := by
  have hfilter : (fun n : Node => n.block?.filter fun c => c.name == name) =
      fun n => if n.key = .block name then n.block? else none := by
    funext n
    cases n <;> simp [Node.block?, Node.key, Option.filter]
  have hselect : ∀ n : Node, n.key = .block name → n.block?.isSome := by
    intro n hn
    rcases n with a | b
    · exact absurd hn (by simp [Node.key])
    · rfl
  rw [block?, List.filter_filterMap, hfilter, List.getLast?_filterMap,
    findSome?_eq_bind_find? hselect, child?, Key.last?, List.getLast?_filter]

/-- What a block gives a name is what its last attribute with the name holds. -/
theorem scalar?_congr (h : c.child? (.attribute name) = b.child? (.attribute name)) :
    c.scalar? name = b.scalar? name := by
  rw [scalar?, scalar?, attribute?_eq_child?, attribute?_eq_child?, h]

end Section

/-! ## Edits of a block -/

/-- What a block is in a process: a step, an action of a step, or neither. -/
inductive Role where
  | step
  | action
  | other
  deriving DecidableEq, Repr

namespace Role

/-- A step is read for its name and its action, and an action for its type. -/
def reads : Role → List Key
  | .step => [.attribute "name".toList, .block "action".toList]
  | .action => [.attribute "action_type".toList]
  | .other => []

/-- What a block with a name is inside a block. -/
def within (role : Role) (name : Text) : Role :=
  if role = .step ∧ name = "action".toList then .action else .other

/-- Two blocks say the same as far as blocks in a role are read. -/
def Agree : Role → Block → Block → Prop
  | .step, b, c => Step.name? b = Step.name? c ∧ Step.actionType? b = Step.actionType? c
  | .action, b, c => b.scalar? "action_type".toList = c.scalar? "action_type".toList
  | .other, _, _ => True

end Role

/-- One edit of a block in a role.  Its children may change places as long as those with one key
keep their order, a child that one with its key stands behind may be dropped, a child that is not
read may be added, labels may change, and a block inside may be edited in its own role. -/
inductive Section.Edit : Role → Block → Block → Prop
  | reorder {role : Role} {b : Block} {cs : List Node} (hperm : b.children.Perm cs)
      (horder : ∀ k : Key, (b.children.filter fun n => n.key = k) = cs.filter fun n => n.key = k) :
      Edit role b ⟨b.name, b.labels, cs, b.line⟩
  | drop {role : Role} {name : Text} {labels : List Text} {line : Int} {before after : List Node}
      {c d : Node} (hd : d ∈ after) (hkey : d.key = c.key) :
      Edit role ⟨name, labels, before ++ c :: after, line⟩ ⟨name, labels, before ++ after, line⟩
  | insert {role : Role} {name : Text} {labels : List Text} {line : Int}
      {before after : List Node} {c : Node} (hc : c.key ∉ role.reads) :
      Edit role ⟨name, labels, before ++ after, line⟩ ⟨name, labels, before ++ c :: after, line⟩
  | relabel {role : Role} {b : Block} (labels : List Text) :
      Edit role b ⟨b.name, labels, b.children, b.line⟩
  | inside {role : Role} {name : Text} {labels : List Text} {line : Int}
      {before after : List Node} {c d : Block} (h : Edit (role.within c.name) c d) :
      Edit role ⟨name, labels, before ++ .block c :: after, line⟩
        ⟨name, labels, before ++ .block d :: after, line⟩

namespace Section

variable {role : Role} {b c d : Block} {before after : List Node}

/-- Blocks with the same last children of the keys that are read say the same. -/
theorem agree_of_child? (h : ∀ k ∈ role.reads, b.child? k = c.child? k) : role.Agree b c := by
  cases role with
  | step =>
      have hname := h (.attribute "name".toList) (by simp [Role.reads])
      have haction := h (.block "action".toList) (by simp [Role.reads])
      refine ⟨scalar?_congr hname, ?_⟩
      rw [Step.actionType?, Step.actionType?, block?_eq_child?, block?_eq_child?, haction]
  | action => exact scalar?_congr (h _ (by simp [Role.reads]))
  | other => trivial

/-- Neighbours with different keys may change places. -/
theorem Edit.swap {name : Text} {labels : List Text} {line : Int} {m n : Node}
    (h : m.key ≠ n.key) :
    Edit role ⟨name, labels, before ++ m :: n :: after, line⟩
      ⟨name, labels, before ++ n :: m :: after, line⟩ := by
  refine .reorder ((List.Perm.swap n m after).append_left before) fun k => ?_
  simp only [List.filter_append, List.filter_cons]
  by_cases hm : m.key = k
  · have hn : n.key ≠ k := fun hn => h (hm.trans hn.symm)
    simp [hm, hn]
  · simp [hm]

/-- An edit of a block keeps its name. -/
theorem Edit.name_eq (h : Edit role b c) : c.name = b.name := by
  cases h <;> rfl

/-- A block is found by its own key only, so that one in its place changes no other child. -/
theorem last?_block_replace (hname : d.name = c.name) {k : Key} (hk : k ≠ .block c.name) :
    k.last? (before ++ .block c :: after) = k.last? (before ++ .block d :: after) := by
  have hd : Node.key (.block d) ≠ k := by
    rw [Node.key, hname]
    exact hk.symm
  rw [Key.last?_insert (c := .block c) hk.symm, Key.last?_insert hd]

/-- Blocks that differ in a block inside say the same if these two have one name and say the
same. -/
theorem agree_inside {name : Text} {labels : List Text} {line : Int} (hname : d.name = c.name)
    (h : (role.within c.name).Agree c d) :
    role.Agree ⟨name, labels, before ++ .block c :: after, line⟩
      ⟨name, labels, before ++ .block d :: after, line⟩ := by
  cases role with
  | step =>
      refine ⟨scalar?_congr (last?_block_replace hname (by simp)), ?_⟩
      rw [Step.actionType?, Step.actionType?, block?_eq_child?, block?_eq_child?, child?, child?]
      by_cases haction : c.name = "action".toList
      · have hkey : Node.key (.block c) = .block "action".toList := congrArg Key.block haction
        have hkey' : Node.key (.block d) = .block "action".toList :=
          congrArg Key.block (hname.trans haction)
        rcases Key.last?_replace hkey hkey' before after with ⟨hc, hd⟩ | hsame
        · rw [Role.within, if_pos ⟨rfl, haction⟩] at h
          rw [hc, hd]
          exact h
        · rw [hsame]
      · rw [last?_block_replace hname (by simpa using Ne.symm haction)]
  | action => exact scalar?_congr (last?_block_replace hname (by simp))
  | other => trivial

/-- An edit of a block in a role changes nothing of what is read of it in that role. -/
theorem Edit.agree (h : Edit role b c) : role.Agree b c := by
  induction h with
  | @reorder role b cs hperm horder =>
      refine agree_of_child? fun k _ => ?_
      rw [child?, child?, Key.last?, horder k]
      rfl
  | drop hd hkey => exact agree_of_child? fun k _ => Key.last?_drop hd hkey k
  | @insert role name labels line before after c hc =>
      refine agree_of_child? fun k hk => (Key.last?_insert ?_ before after).symm
      rintro rfl
      exact hc hk
  | relabel labels => exact agree_of_child? fun _ _ => rfl
  | inside h ih => exact agree_inside h.name_eq ih

end Section

/-! ## Edits of a document -/

/-- One edit of a document.  A step may be edited or get another name, all lines may change, and
attributes between the steps may come and go. -/
inductive Document.Edit : Document → Document → Prop
  | step {before after : Document} {b c : Block} (h : Section.Edit .step b c) :
      Edit (before ++ .block b :: after) (before ++ .block c :: after)
  | rename {before after : Document} {b : Block} (name : Text) :
      Edit (before ++ .block b :: after)
        (before ++ .block ⟨name, b.labels, b.children, b.line⟩ :: after)
  | reline {d e : Document} (h : d.withoutLines = e.withoutLines) : Edit d e
  | addAttribute {before after : Document} (a : Attribute) :
      Edit (before ++ after) (before ++ .attribute a :: after)
  | removeAttribute {before after : Document} (a : Attribute) :
      Edit (before ++ .attribute a :: after) (before ++ after)

end Ocl

/-- What the checks see of a step: its name and the type of its action. -/
def Step.seen (s : Step) : Option Text × Option Text :=
  (s.name?, s.actionType?)

namespace Ocl.Document

variable {d e : Document}

/-- The lines of a document are not seen. -/
theorem map_seen_withoutLines (d : Document) :
    (Document.steps d.withoutLines).map Step.seen = d.steps.map Step.seen := by
  have hlines : Document.steps d.withoutLines = d.steps.map (Section.mapLines fun _ => 0) :=
    steps_mapLines (fun _ => 0) d
  rw [hlines, List.map_map]
  refine List.map_congr_left fun s _ => ?_
  rw [Function.comp_apply, Step.seen, Step.name?_mapLines, Step.actionType?_mapLines]
  rfl

/-- An edit of a document changes nothing of what is seen of its steps. -/
theorem Edit.map_seen_steps (h : Edit d e) : d.steps.map Step.seen = e.steps.map Step.seen := by
  have hblock (b : Block) (after : Document) : steps (.block b :: after) = b :: after.steps := rfl
  have hattribute (a : Attribute) (after : Document) :
      steps (.attribute a :: after) = after.steps := rfl
  cases h with
  | @step before after b c h =>
      have hseen : Step.seen b = Step.seen c := Prod.ext h.agree.1 h.agree.2
      simp only [steps_append, hblock, List.map_append, List.map_cons, hseen]
  | @rename before after b name =>
      have hseen : Step.seen ⟨name, b.labels, b.children, b.line⟩ = Step.seen b := rfl
      simp only [steps_append, hblock, List.map_append, List.map_cons, hseen]
  | reline h => rw [← map_seen_withoutLines d, h, map_seen_withoutLines]
  | addAttribute a => rw [steps_append, steps_append, hattribute]
  | removeAttribute a => rw [steps_append, steps_append, hattribute]

end Ocl.Document

/-! ## Verdicts -/

namespace Step

variable {steps others : List Step}

/-- What is seen of the step at a place is what is seen there of the steps. -/
theorem map_seen_at? (steps : List Step) (p : Place) :
    (at? steps p.index).map seen = match p with
      | .first => (steps.map seen)[0]?
      | .second => (steps.map seen)[1]?
      | .last => (steps.map seen).getLast? := by
  cases p with
  | first => exact List.getElem?_map.symm
  | second => exact List.getElem?_map.symm
  | last => rw [at?_last, List.getLast?_map]

/-- Processes of which the same is seen, step by step, say the same of themselves. -/
theorem SayAlike.of_seen (h : steps.map seen = others.map seen) : SayAlike steps others := by
  intro p
  have hplace : (at? steps p.index).map seen = (at? others p.index).map seen := by
    rw [map_seen_at?, map_seen_at?, h]
  have hname := congrArg (Option.bind · Prod.fst) hplace
  have htype := congrArg (Option.bind · Prod.snd) hplace
  simp only [Option.bind_map] at hname htype
  exact ⟨hname, htype⟩

end Step

/-- Documents with as many steps that say the same of themselves get the same verdict. -/
theorem Ocl.Document.check_congr_of_length {d e : Ocl.Document}
    (h : Step.SayAlike d.steps e.steps) (hlength : d.steps.length = e.steps.length)
    (rules : Rules) : d.check rules = e.check rules := by
  have hcount : rules.minSteps.leInt d.steps.length = rules.minSteps.leInt e.steps.length := by
    rw [hlength]
  have hmessage (c : Check) : c.message rules d.steps = c.message rules e.steps := by
    by_cases hc : c = .stepCount
    · subst hc
      simp only [Check.message, Check.actual, hlength]
    · exact Check.message_congr h hc
  simp only [check, Check.firstFailure?, Check.passes_congr h hcount, hmessage]

namespace Gate

open Ocl

/-- Only the children that count are seen.  A document comes out of the checks, with any rules, as
it did before any sequence of edits: of its steps and their actions in children that are not read
or stand in front of another one with their key, in the order of children with different keys and
in labels, of the names of steps, of all lines, and of what stands between the steps. -/
theorem checkDocument_of_edits {d e : Document} (h : Relation.ReflTransGen Document.Edit d e)
    (rules : Rules) : checkDocument d rules = checkDocument e rules := by
  have hseen : d.steps.map Step.seen = e.steps.map Step.seen := by
    induction h with
    | refl => rfl
    | tail _ hedit ih => exact ih.trans hedit.map_seen_steps
  have hlength : d.steps.length = e.steps.length := by
    simpa using congrArg List.length hseen
  rw [checkDocument, checkDocument, Document.check_congr_of_length (.of_seen hseen) hlength]

/-- A step with a name that is an attribute, and with further children. -/
def stepOf (children : List Node) : Block :=
  ⟨"step".toList, [['a']], children, 1⟩

/-- An action with some types, one behind the other. -/
def actionOf (types : List Text) : Node :=
  .block ⟨"action".toList, [], types.map fun t =>
    .attribute ⟨"action_type".toList, .literal .identifier t, 3⟩, 2⟩

/-- The attribute that names a step. -/
def nameEntry : Node :=
  .attribute ⟨"name".toList, .literal .identifier ['a'], 4⟩

/-- A step with two actions, of which the second one has two types, can be edited into one with a
single action of a single type, and rules that look at the name and at the type see no
difference. -/
theorem checkDocument_of_edits_actions :
    Relation.ReflTransGen Document.Edit
        [.block (stepOf [actionOf [], nameEntry, actionOf [['u'], ['t']]])]
        [.block ⟨['s'], [], [.block ⟨"name".toList, [], [], 7⟩, actionOf [['t']], nameEntry], 9⟩] ∧
      checkDocument [.block (stepOf [actionOf [], nameEntry, actionOf [['u'], ['t']]])]
          ⟨.int 1, ['a'], ['b'], ['c'], ['t']⟩ =
        checkDocument
          [.block ⟨['s'], [], [.block ⟨"name".toList, [], [], 7⟩, actionOf [['t']], nameEntry], 9⟩]
          ⟨.int 1, ['a'], ['b'], ['c'], ['t']⟩ := by
  have hdrop : Section.Edit .step (stepOf [actionOf [], nameEntry, actionOf [['u'], ['t']]])
      (stepOf [nameEntry, actionOf [['u'], ['t']]]) :=
    @Section.Edit.drop _ _ _ _ [] _ _ (actionOf [['u'], ['t']]) (by simp) rfl
  have hinside : Section.Edit .step (stepOf [nameEntry, actionOf [['u'], ['t']]])
      (stepOf [nameEntry, actionOf [['t']]]) :=
    @Section.Edit.inside _ _ _ _ [nameEntry] [] _ _
      (@Section.Edit.drop _ _ _ _ [] _ _ _ List.mem_cons_self rfl)
  have horder : Section.Edit .step (stepOf [nameEntry, actionOf [['t']]])
      (stepOf [actionOf [['t']], nameEntry]) :=
    @Section.Edit.swap _ [] [] _ _ _ nameEntry (actionOf [['t']]) (by decide)
  have hinsert : Section.Edit .step (stepOf [actionOf [['t']], nameEntry])
      (stepOf [.block ⟨"name".toList, [], [], 7⟩, actionOf [['t']], nameEntry]) :=
    @Section.Edit.insert _ _ _ _ [] _ _ (by decide)
  have hedits : Relation.ReflTransGen Document.Edit
      [.block (stepOf [actionOf [], nameEntry, actionOf [['u'], ['t']]])]
      [.block ⟨['s'], [], [.block ⟨"name".toList, [], [], 7⟩, actionOf [['t']], nameEntry], 9⟩] :=
    .head (@Document.Edit.step [] [] _ _ hdrop) <|
    .head (@Document.Edit.step [] [] _ _ hinside) <|
    .head (@Document.Edit.step [] [] _ _ horder) <|
    .head (@Document.Edit.step [] [] _ _ hinsert) <|
    .head (@Document.Edit.step [] [] _ _ (.relabel [])) <|
    .head (@Document.Edit.rename [] [] _ ['s']) <|
    .single (.reline rfl)
  exact ⟨hedits, checkDocument_of_edits hedits _⟩

end Gate

end DeployGate
