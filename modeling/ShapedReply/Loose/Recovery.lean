import ShapedReply.Loose.Completion
import ShapedReply.Loose.Fence

/-!
# Recovering a document from free-form text

The document of an answer is looked for in a fixed order, and the first success counts: the trimmed
text itself, the fenced blocks, the bracketed spans, then the same candidates mended. While an
answer is still coming in, a document that breaks off is completed instead of being searched for
fragments, and completion is also the last resort.
-/

namespace ShapedReply

/-- The wording when a text holds no value. -/
def nothingFoundMessage : String := "no JSON found"

/-- The candidates for mending: the trimmed text, the fenced blocks, and the bracketed spans with
either quote. -/
def mendCandidates (t : Text) : List Text :=
  Text.trim t :: fencedBlocks t ++ Bracket.spans looseQuotes (Text.trim t)

/-- The strict document of a text, whole or with `done := false` still coming in. -/
def recover? (t : Text) (done : Bool) : Option Text :=
  if isStrict (Text.trim t) then some (Text.trim t)
  else match (fencedBlocks t).find? isStrict with
    | some block => some block
    | none =>
      if !done && isCutOff t then some (complete t)
      else match (Bracket.spans strictQuotes t).find? isStrict with
        | some span => some span
        | none => match (mendCandidates t).findSome? mend? with
          | some mended => some mended
          | none => if done then none else some (complete t)

/-- The beginning of a text for an error report: so many characters, or for a negative number all
but so many. -/
def preview (n : Int) (t : Text) : Text :=
  if n < 0 then t.take (t.length - n.natAbs) else t.take n.toNat

end ShapedReply
