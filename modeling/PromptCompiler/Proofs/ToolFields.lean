import Mathlib.Data.List.Basic
import PromptCompiler.Artifact.Layout
import PromptCompiler.Proofs.HeaderFields

/-! # Reading the tools field back

The tools of an artifact stand between single quotes and commas. They are read back by cutting at the
commas and taking quotes from the ends of the items. So the tools that are read are the tools that were
written exactly if no tool holds a comma or begins or ends with a quote.
-/

namespace PromptCompiler

private theorem length_flatMap_le {α β : Type} {f g : α → List β} {items : List α}
    (below : ∀ item ∈ items, (f item).length ≤ (g item).length) :
    (items.flatMap f).length ≤ (items.flatMap g).length := by
  induction items with
  | nil => exact Nat.le_refl _
  | cons first rest ih =>
    rw [List.flatMap_cons, List.flatMap_cons, List.length_append, List.length_append]
    exact Nat.add_le_add (below first List.mem_cons_self) (ih fun item member => below item (List.mem_cons_of_mem first member))

/-- Pieces that are nowhere longer than others and are not shorter in all are as long. -/
theorem length_eq_of_flatMap_le {α β : Type} {f g : α → List β} {items : List α}
    (below : ∀ item ∈ items, (f item).length ≤ (g item).length)
    (total : (items.flatMap g).length ≤ (items.flatMap f).length) :
    ∀ item ∈ items, (f item).length = (g item).length := by
  induction items with
  | nil => simp
  | cons first rest ih =>
    have here := below first List.mem_cons_self
    have later := length_flatMap_le fun item member => below item (List.mem_cons_of_mem first member)
    rw [List.flatMap_cons, List.flatMap_cons, List.length_append, List.length_append] at total
    intro item member
    rcases List.mem_cons.mp member with rfl | member
    · omega
    · exact ih (fun other member => below other (List.mem_cons_of_mem first member)) (by omega) item member

namespace Text

private theorem sorted_of_pairwise {texts : List Text}
    (increasing : texts.Pairwise fun first second => le first second) :
    sorted texts = texts := List.mergeSort_of_pairwise increasing

theorem pairwise_sorted (texts : List Text) : (sorted texts).Pairwise fun first second => le first second := by
  refine List.pairwise_mergeSort (fun a b c below above => ?_) (fun a b => ?_) _
  · exact le_iff.mpr (List.le_trans (le_iff.mp below) (le_iff.mp above))
  · rw [Bool.or_eq_true, le_iff, le_iff]
    exact List.le_total a b

theorem sorted_sortedDistinct (texts : List Text) : sorted (sortedDistinct texts) = sortedDistinct texts :=
  sorted_of_pairwise (pairwise_sorted _)

theorem sorted_perm (texts : List Text) : (sorted texts).Perm texts := List.mergeSort_perm texts le

end Text

namespace Artifact

/-- A tool that is read back from the tools field as it is. -/
structure Readable (tool : Text) : Prop where
  /-- It holds no comma, which would cut it. -/
  noComma : ',' ∉ tool
  /-- It holds no line feed, which would end the field. -/
  noFeed : '\n' ∉ tool
  /-- It neither begins nor ends with a quote, which would be taken away. -/
  noQuotes : Text.trimOf isQuote tool = tool

instance (tool : Text) : Decidable (Readable tool) :=
  decidable_of_iff (',' ∉ tool ∧ '\n' ∉ tool ∧ Text.trimOf isQuote tool = tool)
    ⟨fun ⟨comma, feed, quotes⟩ => ⟨comma, feed, quotes⟩, fun ⟨comma, feed, quotes⟩ => ⟨comma, feed, quotes⟩⟩

def quotedTool (tool : Text) : Text := '\'' :: tool ++ ['\'']

/-- The tools as they are written in the field, between its brackets. -/
def writtenTools (tools : List Text) : Text := Text.listed (tools.map quotedTool)

/-- The items of a text between commas, trimmed, empty ones left out. -/
def commaItems (text : Text) : List Text := ((text.splitOn ',').map Text.trim).filter (· ≠ [])

/-- The tools that are read from what is written between the brackets. -/
def readTools (written : Text) : List Text := (commaItems written).map (Text.trimOf isQuote)

/-! ## Items between commas -/

theorem commaItems_append (before after : Text) :
    commaItems (before ++ ',' :: after) = commaItems before ++ commaItems after := by
  rw [commaItems, List.splitOn_append_cons_self, List.map_append, List.filter_append]
  rfl

theorem commaItems_blank (text : Text) : commaItems (' ' :: text) = commaItems text := by
  obtain ⟨first, more, pieces⟩ := List.exists_cons_of_ne_nil (List.splitOn_ne_nil ',' text)
  have trimmed : Text.trim (' ' :: first) = Text.trim first := rfl
  rw [commaItems, commaItems, List.splitOn_cons_eq_if_modifyHead, if_neg (by decide), pieces, List.modifyHead_cons,
    List.map_cons, List.map_cons, trimmed]

private theorem commaItems_ne_nil {c : Char} {text : Text} (member : c ∈ text) (other : c ≠ ',')
    (solid : Text.isBlank c = false) :
    commaItems text ≠ [] := by
  obtain ⟨piece, listed, inside⟩ := Text.exists_mem_splitOn member other
  have kept : c ∈ Text.trim piece := Text.mem_trimOf inside solid
  refine List.ne_nil_of_mem (a := Text.trim piece) (List.mem_filter.mpr ⟨List.mem_map_of_mem listed, ?_⟩)
  exact decide_eq_true (List.ne_nil_of_mem kept)

private theorem commaItems_quotedTool {tool : Text} (noComma : ',' ∉ tool) :
    commaItems (quotedTool tool) = [quotedTool tool] := by
  have single : (quotedTool tool).splitOn ',' = [quotedTool tool] :=
    List.splitOn_eq_singleton (by simp [quotedTool, noComma])
  have trimmed : Text.trim (quotedTool tool) = quotedTool tool := Text.trimOf_between (by decide) (by decide) tool
  rw [commaItems, single, List.map_singleton, trimmed]
  rfl

/-- A tool with a comma gives at least two items, since the quotes at its ends are no blanks. -/
theorem two_le_commaItems {tool : Text} (comma : ',' ∈ tool) : 2 ≤ (commaItems (quotedTool tool)).length := by
  obtain ⟨before, after, rfl⟩ := List.append_of_mem comma
  have split : quotedTool (before ++ ',' :: after) = ('\'' :: before) ++ ',' :: (after ++ ['\'']) := by
    simp [quotedTool]
  have first : commaItems ('\'' :: before) ≠ [] :=
    commaItems_ne_nil (c := '\'') List.mem_cons_self (by decide) (by decide)
  have second : commaItems (after ++ ['\'']) ≠ [] :=
    commaItems_ne_nil (c := '\'') (by simp) (by decide) (by decide)
  rw [split, commaItems_append, List.length_append]
  have := List.length_pos_iff.mpr first
  have := List.length_pos_iff.mpr second
  omega

private theorem one_le_commaItems (tool : Text) : 1 ≤ (commaItems (quotedTool tool)).length :=
  List.length_pos_iff.mpr (commaItems_ne_nil (c := '\'') List.mem_cons_self (by decide) (by decide))

theorem commaItems_writtenTools (tools : List Text) :
    commaItems (writtenTools tools) = tools.flatMap fun tool => commaItems (quotedTool tool) := by
  induction tools with
  | nil => rfl
  | cons tool rest ih =>
    cases rest with
    | nil => simp [writtenTools, Text.listed]
    | cons next more =>
      have split : writtenTools (tool :: next :: more) = quotedTool tool ++ ',' :: ' ' :: writtenTools (next :: more) := by
        simp only [writtenTools, Text.listed, List.map_cons, List.intercalate_cons_cons, List.append_assoc,
          List.cons_append, List.nil_append]
      rw [split, commaItems_append, commaItems_blank, ih]
      rfl

/-! ## Tools that are read back -/

theorem trimOf_quotedTool (tool : Text) : Text.trimOf isQuote (quotedTool tool) = Text.trimOf isQuote tool := by
  have quote : isQuote '\'' = true := by decide
  have opened : (quotedTool tool).dropWhile isQuote = (tool ++ ['\'']).dropWhile isQuote :=
    List.dropWhile_cons_of_pos quote
  rw [Text.trimOf, opened, List.dropWhile_append]
  split
  · rename_i quotes
    rw [Text.trimOf, List.isEmpty_iff.mp quotes]
    rfl
  · rw [Text.dropEndWhile_append quote, Text.trimOf]

theorem readTools_writtenTools {tools : List Text} (noCommas : ∀ tool ∈ tools, ',' ∉ tool) :
    readTools (writtenTools tools) = tools.map (Text.trimOf isQuote) := by
  have items : commaItems (writtenTools tools) = tools.map quotedTool := by
    rw [commaItems_writtenTools, List.flatMap_congr fun tool member => commaItems_quotedTool (noCommas tool member)]
    exact List.flatMap_pure_eq_map quotedTool tools
  rw [readTools, items, List.map_map]
  exact List.map_congr_left fun tool _ => trimOf_quotedTool tool

/-- If as many tools are read as were written, no comma has cut one of them. -/
theorem noCommas_of_length {tools : List Text} (same : (readTools (writtenTools tools)).length = tools.length) :
    ∀ tool ∈ tools, ',' ∉ tool := by
  have counted : (tools.flatMap fun tool => commaItems (quotedTool tool)).length ≤
      (tools.flatMap fun tool => [tool]).length := by
    rw [readTools, List.length_map, commaItems_writtenTools] at same
    rw [same, List.flatMap_singleton']
  intro tool member comma
  have shorter : ∀ tool ∈ tools, [tool].length ≤ (commaItems (quotedTool tool)).length :=
    fun tool _ => one_le_commaItems tool
  have one := length_eq_of_flatMap_le shorter counted tool member
  have two := two_le_commaItems comma
  rw [← one] at two
  exact absurd two (by simp)

/-- If the tools that are read are the ones that were written in another order, no quotes were taken away. -/
theorem noQuotes_of_perm {tools : List Text} (perm : (tools.map (Text.trimOf isQuote)).Perm tools) :
    ∀ tool ∈ tools, Text.trimOf isQuote tool = tool := by
  intro tool member
  have shorter (tool : Text) := Text.trimOf_sublist isQuote tool
  have total : (tools.flatMap id).length ≤ (tools.flatMap (Text.trimOf isQuote)).length := by
    rw [List.flatMap_id, List.flatMap_def]
    exact perm.flatten.length_eq.ge
  have lengths := length_eq_of_flatMap_le (fun tool _ => (shorter tool).length_le) total tool member
  exact (shorter tool).eq_of_length lengths

/-- The tools that are read are the ones that were written exactly if each of them can be read. -/
theorem sorted_readTools_iff {tools : List Text} (increasing : Text.sorted tools = tools)
    (noFeeds : ∀ tool ∈ tools, '\n' ∉ tool) :
    Text.sorted (readTools (writtenTools tools)) = tools ↔ ∀ tool ∈ tools, Readable tool := by
  constructor
  · intro same
    have perm : (readTools (writtenTools tools)).Perm tools :=
      (Text.sorted_perm (readTools (writtenTools tools))).symm.trans (.of_eq same)
    have noCommas := noCommas_of_length perm.length_eq
    rw [readTools_writtenTools noCommas] at perm
    have noQuotes := noQuotes_of_perm perm
    exact fun tool member => ⟨noCommas tool member, noFeeds tool member, noQuotes tool member⟩
  · intro readable
    have same : readTools (writtenTools tools) = tools := by
      rw [readTools_writtenTools fun tool member => (readable tool member).noComma]
      exact (List.map_congr_left fun tool member => (readable tool member).noQuotes).trans (List.map_id _)
    rw [same, increasing]

end Artifact

end PromptCompiler
