/-
  The definitions of a source in terms of its characters.

  `uncomment` takes the comments off lines, `bracesContent` finds the braces, and `gatherChars`
  puts lines together to definitions.  `definitions_ofList`: these three give the definitions
  of a source, and by `outline_eq` with them its outline.
-/
import SourceScribe.Proofs.Asdl.Outline

namespace SourceScribe.Asdl

open Text (beforeChars splitChars cutAfterBoundary isBlankLine)

/-- Lines without their comments, one after the other. -/
def uncomment (lines : List (List Char)) : List Char :=
  lines.flatMap (beforeChars ['-', '-'])

/-- The characters between the braces, if there is just one pair of them. -/
def bracesContent (cs : List Char) : Except Fault (List Char) :=
  match splitChars ['\x7b'] cs with
  | [_, right] =>
    match splitChars ['\x7d'] right with
    | [content, _] => .ok content
    | _ => .error .badBraces
  | _ => .error .badBraces

/-- Puts lines together to definitions. -/
def gatherChars : Option (List Char) → List (List Char) →
    Except Fault (List (Option (List Char)))
  | current, [] => .ok [current]
  | current, line :: lines =>
    if isBlankLine line then gatherChars current lines
    else if '=' ∈ line then
      match current with
      | none => gatherChars (some line) lines
      | some d => do return some d :: (← gatherChars (some line) lines)
    else
      match current with
      | none => .error .noEqualsSign
      | some d => gatherChars (some (d ++ line)) lines

/-- The definitions in lines. -/
def definitionChars (lines : List (List Char)) : Except Fault (List (Option (List Char))) := do
  gatherChars none (cutAfterBoundary (← bracesContent (uncomment lines)))

theorem toList_join_before (lines : List (List Char)) :
    (String.join ((lines.map String.ofList).map (Text.before "--"))).toList = uncomment lines := by
  have hbefore : ∀ l, (Text.before "--" (String.ofList l)).toList = beforeChars ['-', '-'] l :=
    fun l => by
      rw [Text.before, String.toList_ofList, String.toList_ofList, String.toList_ofList]
  rw [String.toList_join, List.flatMap_map, List.flatMap_map, uncomment]
  simp only [hbefore]

theorem betweenBraces_ofList (cs : List Char) :
    betweenBraces (String.ofList cs) = (bracesContent cs).map String.ofList := by
  have hopen : Text.splitOn "\x7b" (String.ofList cs) = (splitChars ['\x7b'] cs).map String.ofList :=
    splitOn_ofList _ _
  have hclose : ∀ right, Text.splitOn "\x7d" (String.ofList right)
      = (splitChars ['\x7d'] right).map String.ofList := splitOn_ofList "\x7d"
  rw [betweenBraces, bracesContent, hopen]
  rcases splitChars ['\x7b'] cs with _ | ⟨left, _ | ⟨right, _ | ⟨more, rest⟩⟩⟩
  · rfl
  · rfl
  · simp only [List.map_cons, List.map_nil, hclose]
    rcases splitChars ['\x7d'] right with _ | ⟨content, _ | ⟨tail, _ | ⟨more, rest⟩⟩⟩ <;> rfl
  · rfl

theorem isEmpty_strip_ofList (line : List Char) :
    (Text.strip (String.ofList line)).isEmpty = isBlankLine line := by
  cases h : isBlankLine line
  · exact Bool.eq_false_iff.2 (isEmpty_strip h)
  · rw [strip_ofList, List.isEmpty_iff.1 h]
    rfl

theorem gather_ofList (current : Option (List Char)) (lines : List (List Char)) :
    gather (current.map String.ofList) (lines.map String.ofList)
      = (gatherChars current lines).map (List.map (Option.map String.ofList)) := by
  induction lines generalizing current with
  | nil => cases current <;> rfl
  | cons line lines ih =>
    have hcontains : (String.ofList line).toList.contains '=' = true ↔ '=' ∈ line := by
      rw [String.toList_ofList, List.contains_iff_mem]
    rw [List.map_cons]
    cases current with
    | none =>
      have hnone : gather none (lines.map String.ofList) = _ := ih none
      have hline : gather (some (String.ofList line)) (lines.map String.ofList) = _ :=
        ih (some line)
      rw [Option.map_none, gather, gatherChars, isEmpty_strip_ofList]
      simp only [hcontains, hnone, hline]
      split_ifs <;> rfl
    | some d =>
      have hsame : gather (some (String.ofList d)) (lines.map String.ofList) = _ := ih (some d)
      have hline : gather (some (String.ofList line)) (lines.map String.ofList) = _ :=
        ih (some line)
      have hlonger : gather (some (String.ofList (d ++ line))) (lines.map String.ofList) = _ :=
        ih (some (d ++ line))
      rw [Option.map_some, gather, gatherChars, isEmpty_strip_ofList]
      simp only [hcontains, ← String.ofList_append, hsame, hline, hlonger]
      split_ifs
      · rfl
      · cases gatherChars (some line) lines <;> rfl
      · rfl

theorem definitions_ofList (lines : List (List Char)) :
    definitions (lines.map String.ofList)
      = (definitionChars lines).map (List.map (Option.map String.ofList)) := by
  have hjoin : String.join ((lines.map String.ofList).map (Text.before "--"))
      = String.ofList (uncomment lines) := by
    rw [← toList_join_before, String.ofList_toList]
  rw [definitions, hjoin, betweenBraces_ofList, definitionChars]
  cases bracesContent (uncomment lines) with
  | error f => rfl
  | ok content =>
    show gather none (Text.logicalLines (String.ofList content)) = _
    rw [Text.logicalLines, String.toList_ofList]
    exact gather_ofList none _

/-- The outline of a source from its characters. -/
theorem outline_eq (s : String) :
    outline s = match Text.cutAfterLineFeed (Text.unifyChars s.toList) with
      | [] => .error .noFirstLine
      | first :: rest => do
        let ds ← definitionChars (first :: rest)
        let cs ← clausesOf (ds.map (Option.map String.ofList))
        return ⟨Text.splitOn "," (String.ofList first), cs⟩ := by
  rw [outline, Text.physicalLines, Text.unifyNewlines, String.toList_ofList]
  cases Text.cutAfterLineFeed (Text.unifyChars s.toList) with
  | nil => rfl
  | cons first rest =>
    show (definitions ((first :: rest).map String.ofList) >>= _) = _
    rw [definitions_ofList]
    simp only
    cases definitionChars (first :: rest) <;> rfl

end SourceScribe.Asdl
