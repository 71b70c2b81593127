import DeployGate.CommandLine.Gate
import DeployGate.Proofs.Number.Value
import DeployGate.Proofs.Ocl.Concatenation
import DeployGate.Proofs.Process.StepLookup

/-!
# Steps that no check looks at

The checks look at the number of steps and at what the first, the second and the last one say of
themselves.  The lines of a document are nowhere looked at.  So a text between the two front
steps and the last one changes nothing, if there are enough steps without it.

Main results:

- Theorem `Step.at?_append`: the steps at the places of a process with steps put into it.
- Theorem `Ocl.Document.check_congr`: processes that say the same at all places.
- Theorem `Gate.checkDocument_between`: a text between the front and the last step is not seen.
-/

namespace DeployGate

namespace Ocl

/-! ## Lines of steps -/

/-- A block with its lines changed. -/
def Section.mapLines (f : Int → Int) (b : Block) : Block :=
  ⟨b.name, b.labels, b.children.map (Node.mapLines f), f b.line⟩

variable (f : Int → Int)

@[simp] theorem Node.attribute?_mapLines (n : Node) :
    (n.mapLines f).attribute? = n.attribute?.map (Attribute.mapLines f) := by
  cases n <;> rfl

@[simp] theorem Node.block?_mapLines (n : Node) :
    (n.mapLines f).block? = n.block?.map (Section.mapLines f) := by
  cases n <;> simp [Node.mapLines, Node.block?, Section.mapLines]

/-- A scalar has no lines. -/
@[simp] theorem Value.scalar?_mapLines (v : Value) : (v.mapLines f).scalar? = v.scalar? := by
  cases v <;> rfl

/-- The last part of a kind with a name is the same but for its lines. -/
theorem getLast?_mapLines {β : Type} {select : Node → Option β} {nameOf : β → Text} {g : β → β}
    (hselect : ∀ n, select (n.mapLines f) = (select n).map g)
    (hname : ∀ b, nameOf (g b) = nameOf b) (name : Text) (ns : List Node) :
    (((ns.map (Node.mapLines f)).filterMap select).filter fun c => nameOf c == name).getLast? =
      ((ns.filterMap select).filter fun c => nameOf c == name).getLast?.map g := by
  have hmap : select ∘ Node.mapLines f = fun n => (select n).map g := funext hselect
  have hsame : (fun c => nameOf c == name) ∘ g = fun c => nameOf c == name := by
    funext b
    simp [hname]
  rw [List.filterMap_map, hmap, ← List.map_filterMap, List.filter_map, hsame, List.getLast?_map]

namespace Section

/-- The last attribute with a name is the same but for its lines. -/
@[simp] theorem attribute?_mapLines (b : Block) (name : Text) :
    (b.mapLines f).attribute? name = (b.attribute? name).map (Attribute.mapLines f) :=
  getLast?_mapLines f (Node.attribute?_mapLines f) (fun _ => rfl) name b.children

/-- The last block with a name is the same but for its lines. -/
@[simp] theorem block?_mapLines (b : Block) (name : Text) :
    (b.mapLines f).block? name = (b.block? name).map (mapLines f) :=
  getLast?_mapLines f (Node.block?_mapLines f) (fun _ => rfl) name b.children

/-- What a block gives a name does not depend on lines. -/
@[simp] theorem scalar?_mapLines (b : Block) (name : Text) :
    (b.mapLines f).scalar? name = b.scalar? name := by
  rw [scalar?, scalar?, attribute?_mapLines, Option.bind_map]
  congr 1
  funext a
  exact Value.scalar?_mapLines f a.value

end Section

/-- The steps of a document are the same but for their lines. -/
theorem Document.steps_mapLines (d : Document) :
    Document.steps (d.map (Node.mapLines f)) = d.steps.map (Section.mapLines f) := by
  rw [steps, steps, List.filterMap_map, List.map_filterMap]
  congr 1
  exact funext (Node.block?_mapLines f)

/-- The steps of a document behind another one are behind its steps. -/
theorem Document.steps_append (d e : Document) : Document.steps (d ++ e) = d.steps ++ e.steps :=
  List.filterMap_append ..

end Ocl

/-! ## Places -/

namespace Step

variable {front between back : List Step}

/-- The name of a step does not depend on lines. -/
@[simp] theorem name?_mapLines (f : Int → Int) (s : Step) :
    name? (Ocl.Section.mapLines f s) = name? s :=
  Ocl.Section.scalar?_mapLines f s _

/-- The type of the action of a step does not depend on lines. -/
@[simp] theorem actionType?_mapLines (f : Int → Int) (s : Step) :
    actionType? (Ocl.Section.mapLines f s) = actionType? s := by
  rw [actionType?, actionType?, Ocl.Section.block?_mapLines, Option.bind_map]
  congr 1
  funext a
  exact Ocl.Section.scalar?_mapLines f a _

/-- The first and the second step of a process are in its front, and the last one is in its
back. -/
theorem at?_append (hfront : 2 ≤ front.length) (hback : back ≠ []) (p : Place) :
    at? (front ++ (between ++ back)) p.index =
      at? (if p = .last then back else front) p.index := by
  have hfirst : 0 < front.length := by omega
  have hsecond : 1 < front.length := by omega
  cases p with
  | first => exact List.getElem?_append_left hfirst
  | second => exact List.getElem?_append_left hsecond
  | last =>
      rw [if_pos rfl, at?_last, at?_last, List.getLast?_append_of_ne_nil _ (by simp [hback]),
        List.getLast?_append_of_ne_nil _ hback]

/-- A step on other lines is at the place where it was. -/
theorem at?_mapLines (f : Int → Int) (steps : List Step) (p : Place) :
    at? (steps.map (Ocl.Section.mapLines f)) p.index =
      (at? steps p.index).map (Ocl.Section.mapLines f) := by
  cases p with
  | first => exact List.getElem?_map
  | second => exact List.getElem?_map
  | last => rw [at?_last, at?_last, List.getLast?_map]

/-- Two processes say the same of themselves at all places. -/
def SayAlike (steps others : List Step) : Prop :=
  ∀ p : Place, nameAt? steps p.index = nameAt? others p.index ∧
    actionTypeAt? steps p.index = actionTypeAt? others p.index

namespace SayAlike

variable {steps others more : List Step}

theorem symm (h : SayAlike steps others) : SayAlike others steps :=
  fun p => ⟨(h p).1.symm, (h p).2.symm⟩

theorem trans (h : SayAlike steps others) (h' : SayAlike others more) : SayAlike steps more :=
  fun p => ⟨(h p).1.trans (h' p).1, (h p).2.trans (h' p).2⟩

/-- Steps on other lines say what they said. -/
theorem mapLines (f : Int → Int) (steps : List Step) :
    SayAlike (steps.map (Ocl.Section.mapLines f)) steps := by
  intro p
  have hname : name? ∘ Ocl.Section.mapLines f = name? := funext (name?_mapLines f)
  have htype : actionType? ∘ Ocl.Section.mapLines f = actionType? :=
    funext (actionType?_mapLines f)
  rw [nameAt?, nameAt?, actionTypeAt?, actionTypeAt?, at?_mapLines, Option.bind_map,
    Option.bind_map, hname, htype]
  exact ⟨rfl, rfl⟩

/-- What is between the front and the back of a process changes nothing of what the process says
of itself, and neither do backs that say the same. -/
theorem append {front back back' : List Step} (hfront : 2 ≤ front.length) (hne : back ≠ [])
    (hne' : back' ≠ []) (hback : SayAlike back back') (between between' : List Step) :
    SayAlike (front ++ (between ++ back)) (front ++ (between' ++ back')) := by
  intro p
  simp only [nameAt?, actionTypeAt?]
  rw [at?_append hfront hne, at?_append hfront hne']
  split
  · exact hback p
  · exact ⟨rfl, rfl⟩

end SayAlike

end Step

/-! ## Verdicts -/

namespace Check

variable {rules : Rules} {steps others : List Step}

/-- Processes that say the same of themselves, and have enough steps or both have too few, pass the
same checks. -/
theorem passes_congr (h : Step.SayAlike steps others)
    (hcount : rules.minSteps.leInt steps.length = rules.minSteps.leInt others.length) (c : Check) :
    c.passes rules steps = c.passes rules others := by
  cases c with
  | stepCount => exact hcount
  | stepName p => simp only [passes, actual, (h p).1]
  | actionType p => simp only [passes, actual, (h p).2]
  | lastStepNamed => simp only [passes, (h .last).1]

/-- Of a check that is not about their number, processes that say the same of themselves have the
same message. -/
theorem message_congr (h : Step.SayAlike steps others) {c : Check} (hc : c ≠ .stepCount) :
    c.message rules steps = c.message rules others := by
  cases c with
  | stepCount => contradiction
  | stepName p => simp only [message, actual, (h p).1]
  | actionType p => simp only [message, actual, (h p).2]
  | lastStepNamed => simp only [message, actual, (h .last).1]

end Check

/-- Documents with enough steps that say the same of themselves get the same verdict. -/
theorem Ocl.Document.check_congr {d e : Ocl.Document} {rules : Rules}
    (h : Step.SayAlike d.steps e.steps) (hcount : rules.minSteps.leInt d.steps.length = true)
    (hcount' : rules.minSteps.leInt e.steps.length = true) : d.check rules = e.check rules := by
  have hfirst : Check.firstFailure? rules d.steps = Check.firstFailure? rules e.steps := by
    simp only [Check.firstFailure?, Check.passes_congr h (hcount.trans hcount'.symm)]
  rw [check, check, hfirst]
  cases hc : Check.firstFailure? rules e.steps with
  | none => rfl
  | some c =>
      have hfails : c.passes rules e.steps = false := by
        simpa using List.find?_some hc
      have hother : c ≠ .stepCount := by
        rintro rfl
        rw [Check.passes, hcount'] at hfails
        contradiction
      simp only [Check.message_congr h hother]

/-- What is put between the front and the back of a document with enough steps, and the lines of
the back, change nothing of the verdict. -/
theorem Ocl.Document.check_between {dp dm dq : Ocl.Document} {rules : Rules} (f g h : Int → Int)
    (htwo : 2 ≤ dp.steps.length) (hone : 1 ≤ dq.steps.length)
    (hcount : rules.minSteps.leInt (dp.steps.length + dq.steps.length) = true) :
    check (dp ++ (dm ++ dq.map (Ocl.Node.mapLines g)).map (Ocl.Node.mapLines f)) rules =
      check (dp ++ dq.map (Ocl.Node.mapLines h)) rules := by
  have hne : dq.steps ≠ [] := List.ne_nil_of_length_pos hone
  have hlong : steps (dp ++ (dm ++ dq.map (Ocl.Node.mapLines g)).map (Ocl.Node.mapLines f)) =
      dp.steps ++ (dm.steps.map (Ocl.Section.mapLines f) ++
        (dq.steps.map (Ocl.Section.mapLines g)).map (Ocl.Section.mapLines f)) := by
    rw [steps_append, steps_mapLines, steps_append, steps_mapLines, List.map_append]
  have hshort : steps (dp ++ dq.map (Ocl.Node.mapLines h)) =
      dp.steps ++ ([] ++ dq.steps.map (Ocl.Section.mapLines h)) := by
    rw [steps_append, steps_mapLines, List.nil_append]
  have hback : Step.SayAlike ((dq.steps.map (Ocl.Section.mapLines g)).map (Ocl.Section.mapLines f))
      (dq.steps.map (Ocl.Section.mapLines h)) :=
    (Step.SayAlike.mapLines f _).trans
      ((Step.SayAlike.mapLines g _).trans (Step.SayAlike.mapLines h _).symm)
  apply check_congr
  · rw [hlong, hshort]
    exact .append htwo (by simpa using hne) (by simpa using hne) hback _ []
  · apply Number.leInt_mono hcount
    rw [hlong]
    simp only [List.length_append, List.length_map]
    omega
  · apply Number.leInt_mono hcount
    rw [hshort]
    simp

/-! ## Texts -/

namespace Gate

variable {p m q : Text} {dp dm dq : Ocl.Document} {rules : Rules}

/-- What stands between the front and the back of a process is not seen.  Where a text with two
steps, any other text and a text with a step are documents, and there are enough steps without
the text between, checking the three behind one another comes out as checking the first and the
last. -/
theorem checkDocument_between (hp : Ocl.Document.read p = .ok dp)
    (hm : Ocl.Document.read m = .ok dm) (hq : Ocl.Document.read q = .ok dq)
    (htwo : 2 ≤ dp.steps.length) (hone : 1 ≤ dq.steps.length)
    (hcount : rules.minSteps.leInt (dp.steps.length + dq.steps.length) = true) :
    ∃ d e, Ocl.Document.read (p ++ '\n' :: (m ++ '\n' :: q)) = .ok d ∧
      Ocl.Document.read (p ++ '\n' :: q) = .ok e ∧
      checkDocument d rules = checkDocument e rules := by
  have hrest : Ocl.Document.read (m ++ '\n' :: q) =
      .ok (dm ++ dq.map (Ocl.Node.mapLines (· + (1 + m.lineFeeds)))) := by
    rw [Ocl.read_append_eq hm, hq]
  refine ⟨_, _, by rw [Ocl.read_append_eq hp, hrest], by rw [Ocl.read_append_eq hp, hq], ?_⟩
  rw [checkDocument, checkDocument, Ocl.Document.check_between _ _ _ htwo hone hcount]

/-- Neither a heredoc nor an action between two steps and a third one is seen by the standard
rules. -/
theorem checkDocument_between_action :
    ∃ d e, Ocl.Document.read ("a{}\nb{}".toList ++ '\n' ::
          ("c=<<E\nd\nE\naction{}".toList ++ '\n' :: "z{}".toList)) = .ok d ∧
      Ocl.Document.read ("a{}\nb{}".toList ++ '\n' :: "z{}".toList) = .ok e ∧
      checkDocument d Rules.standard = checkDocument e Rules.standard := by
  have hp : Ocl.Document.read "a{}\nb{}".toList =
      .ok [.block ⟨['a'], [], [], 1⟩, .block ⟨['b'], [], [], 2⟩] := by cbv
  have hm : Ocl.Document.read "c=<<E\nd\nE\naction{}".toList =
      .ok [.attribute ⟨['c'], .literal .heredoc ['d'], 1⟩,
        .block ⟨['a', 'c', 't', 'i', 'o', 'n'], [], [], 4⟩] := by cbv
  have hq : Ocl.Document.read "z{}".toList = .ok [.block ⟨['z'], [], [], 1⟩] := by cbv
  exact checkDocument_between hp hm hq (by decide) (by decide) (by decide)

end Gate

end DeployGate
