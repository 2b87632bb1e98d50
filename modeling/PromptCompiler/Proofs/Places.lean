import PromptCompiler.Run.Compile

/-! # The places of a project

The paths of a run spell places in the tree: a path to a place is followed by names only, and what is
read from it by the text of a name spells the place one step further in. The places that a run writes to
are apart: different sources have different artifacts, and no name under which an artifact is written
before it takes its place is the name of an artifact.
-/

namespace PromptCompiler

namespace Name

/-- A name with a text added to it. -/
def suffixed (name : Name) (ending : Text) (noSlash : '/' ∉ ending) : Name where
  text := name.text ++ ending
  proper := by
    obtain ⟨notEmpty, notDot, notDots, slash⟩ := name.proper
    obtain ⟨first, rest, spelled⟩ := List.exists_cons_of_ne_nil notEmpty
    rw [spelled] at notDot notDots slash ⊢
    refine ⟨by simp, fun same => ?_, fun same => ?_, ?_⟩
    · obtain ⟨rfl, empty⟩ := List.cons.inj same
      rw [List.append_eq_nil_iff.mp empty |>.1] at notDot
      exact notDot rfl
    · obtain ⟨rfl, single⟩ := List.cons.inj same
      rcases List.append_eq_singleton_iff.mp single with ⟨rfl, _⟩ | ⟨rfl, _⟩
      · exact notDot rfl
      · exact notDots rfl
    · rw [List.mem_append, not_or]
      exact ⟨slash, noSlash⟩

theorem suffixed_ne (name : Name) {ending : Text} (noSlash : '/' ∉ ending) (notEmpty : ending ≠ []) :
    name.suffixed ending noSlash ≠ name := by
  intro same
  have lengths := congrArg (fun name => name.text.length) same
  have positive := List.length_pos_iff.mpr notEmpty
  simp only [suffixed, List.length_append] at lengths
  omega

end Name

theorem Location.steps_cons (name : Name) (outer : Location) :
    steps (name :: outer) = steps outer ++ [.into name] := by
  simp [steps]

theorem Location.after_map_into (names : List Name) (here : Location) :
    after here (names.map .into) = names.reverse ++ here := by
  induction names generalizing here with
  | nil => rfl
  | cons name rest ih => simp [after, ih]

namespace Path

@[simp] theorem location_ofLocation (place : Location) : (ofLocation place).location = place := by
  rw [location, ofLocation, Location.steps, Location.after_map_into, List.reverse_reverse, List.append_nil]

@[simp] theorem child_ofLocation (place : Location) (name : Name) :
    (ofLocation place).child name = ofLocation (name :: place) := by
  simp [child, ofLocation, Location.steps_cons]

@[simp] theorem parent_ofLocation (name : Name) (outer : Location) :
    (ofLocation (name :: outer)).parent = ofLocation outer := by
  simp [parent, ofLocation, Location.steps_cons]

@[simp] theorem name_ofLocation (name : Name) (outer : Location) :
    (ofLocation (name :: outer)).name = name.text := by
  simp [Path.name, ofLocation, Location.steps_cons, Step.text]

/-- A path read by the text of a name goes on into the entry of this name. -/
theorem join_text (directory : Path) (name : Name) : directory.join name.text = directory.child name := by
  obtain ⟨notEmpty, -, -, noSlash⟩ := name.proper
  have pieces : stepsOf name.text = [.into name] := by
    have step : Step.ofPiece? name.text = some (.into name) := Step.ofPiece?_text (.into name)
    simp [stepsOf, List.splitOn_eq_singleton noSlash, step]
  have start : Anchor.ofText name.text = .here := by
    obtain ⟨first, rest, spelled⟩ := List.exists_cons_of_ne_nil notEmpty
    rw [spelled] at noSlash ⊢
    have apart : first ≠ '/' := fun same => noSlash (same ▸ List.mem_cons_self)
    unfold Anchor.ofText
    split <;> simp_all
  rw [join, start, pieces, child]

@[simp] theorem join_name (place : Location) (name : Name) :
    (ofLocation place).join name.text = ofLocation (name :: place) := by
  rw [join_text, child_ofLocation]

@[simp] theorem parent_child (directory : Path) (name : Name) : (directory.child name).parent = directory := by
  simp [parent, child]

theorem withNameSuffix_child (directory : Path) (name : Name) (ending : Text) (noSlash : '/' ∉ ending) :
    (directory.child name).withNameSuffix ending = directory.child (name.suffixed ending noSlash) := by
  have last : (directory.child name).name = name.text := by simp [Path.name, child, Step.text]
  rw [withNameSuffix, parent_child, last]
  exact join_text directory (name.suffixed ending noSlash)

@[simp] theorem withNameSuffix_ofLocation (name : Name) (outer : Location) (ending : Text)
    (noSlash : '/' ∉ ending) :
    (ofLocation (name :: outer)).withNameSuffix ending = ofLocation (name.suffixed ending noSlash :: outer) := by
  rw [← child_ofLocation, withNameSuffix_child _ _ _ noSlash, child_ofLocation]

end Path

namespace Artifact

theorem base_sublist (source : Text) : (base source).Sublist source := by
  rw [base, Text.withoutEnding]
  split
  · exact List.take_sublist _ _
  · exact List.Sublist.refl source

/-- The entry of the artifact of a source. -/
def entryName (source : Name) : Name where
  text := nameFor source.text
  proper := by
    have noSlash : '/' ∉ base source.text := fun slash =>
      source.proper.2.2.2 ((base_sublist source.text).subset slash)
    have long : 3 ≤ (nameFor source.text).length := by
      have ending : artifactEnding.length = 10 := by decide
      rw [nameFor, List.length_append]
      omega
    have apart (short : Text) (few : short.length < 3) : nameFor source.text ≠ short := by
      rintro rfl
      omega
    have notEmpty := apart [] (by decide)
    have notDot := apart ['.'] (by decide)
    have notDots := apart ['.', '.'] (by decide)
    refine ⟨notEmpty, notDot, notDots, ?_⟩
    have beginning : '/' ∉ artifactBeginning := by decide
    have ending : '/' ∉ artifactEnding := by decide
    rw [nameFor, List.mem_append, List.mem_append]
    rintro ((slash | slash) | slash)
    · exact beginning slash
    · exact noSlash slash
    · exact ending slash

@[simp] theorem isArtifact_nameFor (source : Text) : isArtifact (nameFor source) = true := by
  rw [isArtifact, Bool.and_eq_true, List.isPrefixOf_iff_prefix, List.isSuffixOf_iff_suffix, nameFor]
  exact ⟨⟨_, (List.append_assoc _ _ _).symm⟩, List.suffix_append _ _⟩

theorem base_append {source : Text} (ends : isSource source = true) : base source ++ sourceEnding = source := by
  obtain ⟨stem, rfl⟩ := List.isSuffixOf_iff_suffix.mp ends
  rw [base, Text.withoutEnding, if_pos (show List.isSuffixOf sourceEnding _ = true from ends),
    List.length_append, Nat.add_sub_cancel, List.take_left]

/-- Different sources have different artifacts. -/
theorem nameFor_inj {first second : Text} (isFirst : isSource first = true) (isSecond : isSource second = true)
    (same : nameFor first = nameFor second) : first = second := by
  rw [nameFor, nameFor, List.append_assoc, List.append_assoc] at same
  have bases := List.append_cancel_right (List.append_cancel_left same)
  rw [← base_append isFirst, bases, base_append isSecond]

theorem entryName_inj {first second : Name} (isFirst : isSource first.text = true)
    (isSecond : isSource second.text = true) (same : entryName first = entryName second) : first = second :=
  Name.ext (nameFor_inj isFirst isSecond (congrArg Name.text same))

/-- The entry under which the artifact of a source is written before it takes its place. -/
def draftName (source : Name) : Name := (entryName source).suffixed Layout.draftEnding (by decide)

theorem draftName_inj {first second : Name} (isFirst : isSource first.text = true)
    (isSecond : isSource second.text = true) (same : draftName first = draftName second) : first = second :=
  Name.ext (nameFor_inj isFirst isSecond (List.append_cancel_right (congrArg Name.text same)))

theorem not_isArtifact_draftName (source : Name) : isArtifact (draftName source).text = false := by
  have notEnding : ¬ artifactEnding <:+ (entryName source).text ++ Layout.draftEnding := by
    rintro ⟨stem, same⟩
    have last := congrArg List.getLast? same
    rw [List.getLast?_append, List.getLast?_append, show artifactEnding.getLast? = some 'd' by decide,
      show Layout.draftEnding.getLast? = some 'n' by decide] at last
    cases last
  rw [isArtifact, Bool.and_eq_false_iff]
  right
  rw [Bool.eq_false_iff, ne_eq, List.isSuffixOf_iff_suffix]
  exact notEnding

theorem draftName_ne_entryName (first second : Name) : draftName first ≠ entryName second := by
  intro same
  have artifact := isArtifact_nameFor second.text
  rw [show nameFor second.text = (draftName first).text from (congrArg Name.text same).symm,
    not_isArtifact_draftName] at artifact
  cases artifact

end Artifact

namespace Layout

def commandsPlace (root : Location) : Location :=
  ⟨"gsd".toList, by decide⟩ :: ⟨"commands".toList, by decide⟩ :: root

def promptsPlace (root : Location) : Location :=
  ⟨"prompts".toList, by decide⟩ :: ⟨".github".toList, by decide⟩ :: root

def scriptsPlace (root : Location) : Location := ⟨"scripts".toList, by decide⟩ :: root

def tableName : Name := ⟨"tools.json".toList, by decide⟩

/-- The name under which the tool table is written before it takes its place. -/
def tableDraftName : Name := tableName.suffixed ToolTable.draftEnding (by decide)

def tablePlace (root : Location) : Location := tableName :: scriptsPlace root

/-- The place at which the tool table is written before it takes its place. -/
def tableDraftPlace (root : Location) : Location := tableDraftName :: scriptsPlace root

def artifactPlace (root : Location) (source : Name) : Location :=
  Artifact.entryName source :: promptsPlace root

/-- The place at which the artifact of a source is written before it takes its place. -/
def draftPlace (root : Location) (source : Name) : Location :=
  Artifact.draftName source :: promptsPlace root

def ofPlace (root : Location) : Layout := ofRoot (.ofLocation root)

private theorem join_two (text : Text) (outer inner : Name) (start : Anchor.ofText text = .here)
    (pieces : stepsOf text = [.into outer, .into inner]) (place : Location) :
    (Path.ofLocation place).join text = .ofLocation (inner :: outer :: place) := by
  simp [Path.join, start, pieces, Path.ofLocation, Location.steps_cons]

@[simp] theorem ofPlace_root (root : Location) : (ofPlace root).root = .ofLocation root := rfl

@[simp] theorem ofPlace_commands (root : Location) :
    (ofPlace root).commands = .ofLocation (commandsPlace root) :=
  join_two defaultCommands _ _ (by decide) (by decide) root

@[simp] theorem ofPlace_prompts (root : Location) :
    (ofPlace root).prompts = .ofLocation (promptsPlace root) :=
  join_two defaultPrompts _ _ (by decide) (by decide) root

@[simp] theorem ofPlace_table (root : Location) : (ofPlace root).table = .ofLocation (tablePlace root) :=
  join_two defaultTable _ _ (by decide) (by decide) root

/-! The places of a run are apart: nothing that it writes is among the sources, and the directories that
it makes lie above what it writes. -/

theorem promptsPlace_ne_commandsPlace (root : Location) : promptsPlace root ≠ commandsPlace root := by
  intro same
  have names := congrArg Name.text (List.cons.inj same).1
  revert names
  decide

private theorem scriptsPlace_ne (root : Location) (outer inner : Name) :
    scriptsPlace root ≠ inner :: outer :: root := by
  intro same
  have lengths := congrArg List.length same
  simp [scriptsPlace] at lengths

theorem scriptsPlace_ne_promptsPlace (root : Location) : scriptsPlace root ≠ promptsPlace root :=
  scriptsPlace_ne root _ _

theorem scriptsPlace_ne_commandsPlace (root : Location) : scriptsPlace root ≠ commandsPlace root :=
  scriptsPlace_ne root _ _

theorem not_above_of_longer {inner outer : Location} (longer : outer.length < inner.length) :
    ¬ inner <:+ outer := fun above => Nat.not_le.mpr longer above.length_le

theorem inPrompts_not_above_prompts (root : Location) (name : Name) : ¬ name :: promptsPlace root <:+ promptsPlace root :=
  not_above_of_longer (by simp)

theorem inPrompts_not_above_scripts (root : Location) (name : Name) : ¬ name :: promptsPlace root <:+ scriptsPlace root :=
  not_above_of_longer (by simp [promptsPlace, scriptsPlace])

theorem inScripts_not_above_prompts (root : Location) (name : Name) :
    ¬ name :: scriptsPlace root <:+ promptsPlace root := by
  intro above
  have lengths : (name :: scriptsPlace root).length = (promptsPlace root).length := by
    simp [promptsPlace, scriptsPlace]
  have same := (List.cons.inj (above.eq_of_length lengths)).2
  have names := congrArg Name.text (List.cons.inj same).1
  revert names
  decide

theorem inCommands_not_above_prompts (root : Location) (name : Name) :
    ¬ name :: commandsPlace root <:+ promptsPlace root :=
  not_above_of_longer (by simp [promptsPlace, commandsPlace])

theorem inCommands_not_above_scripts (root : Location) (name : Name) :
    ¬ name :: commandsPlace root <:+ scriptsPlace root :=
  not_above_of_longer (by simp [scriptsPlace, commandsPlace])

end Layout

end PromptCompiler
