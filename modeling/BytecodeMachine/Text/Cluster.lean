import BytecodeMachine.Text.Conjunct
import BytecodeMachine.Text.Control
import BytecodeMachine.Text.Mark
import BytecodeMachine.Text.Pictograph

/-!
# Clusters

What a reader takes for one character can be written with several: a letter and
its marks, the letters of a Hangul syllable, linked consonants, joined
pictographs, the two letters of a flag.  A text splits into such clusters by the
rules of the Unicode standard for extended grapheme clusters.
-/

namespace BytecodeMachine.Text

namespace Cluster

/-- The part that a character plays in a cluster. -/
inductive Role where
  | other
  | carriageReturn
  | lineFeed
  | control
  | combining
  | linker
  | nonJoiner
  | joiner
  | spacing
  | leadingSign
  | consonant
  | pictograph
  | regional
  /-- A Hangul letter that starts a syllable. -/
  | initial
  /-- A Hangul letter, or one of a script like it, in the middle of a syllable. -/
  | vowel
  /-- A Hangul letter that ends a syllable. -/
  | final
  /-- A Hangul syllable that another letter can end. -/
  | openSyllable
  /-- A Hangul syllable with its last letter. -/
  | closedSyllable
  deriving DecidableEq, Repr

namespace Role

/-- The letters that start a syllable. -/
def initialRanges : CodeRanges :=
  [ (0x1100, 0x115f), (0xa960, 0xa97c) ]

/-- The letters in the middle of a syllable. -/
def vowelRanges : CodeRanges :=
  [ (0x1160, 0x11a7), (0xd7b0, 0xd7c6), (0x16d63, 0x16d63), (0x16d67, 0x16d6a) ]

/-- The letters that end a syllable. -/
def finalRanges : CodeRanges :=
  [ (0x11a8, 0x11ff), (0xd7cb, 0xd7fb) ]

/-- The syllables. -/
def syllableRanges : CodeRanges :=
  [ (0xac00, 0xd7a3) ]

/-- The role of a character.  The syllables come in groups of 28, of which the
first is open. -/
def of (c : Char) : Role :=
  if c = '\r' then .carriageReturn
  else if c = '\n' then .lineFeed
  else if isControl c then .control
  else if c.toNat = 0x200c then .nonJoiner
  else if c.toNat = 0x200d then .joiner
  else if isLinker c then .linker
  else if isCombining c || isSoundMark c || isSkinTone c then .combining
  else if isSpacing c then .spacing
  else if isLeadingSign c then .leadingSign
  else if isConsonant c then .consonant
  else if isPictograph c then .pictograph
  else if isRegional c then .regional
  else if initialRanges.contains c then .initial
  else if vowelRanges.contains c then .vowel
  else if finalRanges.contains c then .final
  else if syllableRanges.contains c then
    if (c.toNat - 0xac00) % 28 = 0 then .openSyllable else .closedSyllable
  else .other

/-- Stands alone, but for a line feed after a carriage return. -/
def isSeparate : Role → Bool
  | .carriageReturn | .lineFeed | .control => true
  | _ => false

/-- Extends the character in front of it. -/
def isExtender : Role → Bool
  | .combining | .linker | .nonJoiner => true
  | _ => false

/-- Attaches to any character in front of it. -/
def isAttached : Role → Bool
  | .joiner | .spacing => true
  | role => role.isExtender

/-- Can stand between the consonants of a conjunct. -/
def isConjunctSign : Role → Bool
  | .combining | .linker | .joiner => true
  | _ => false

/-- The two are neighbouring letters of one syllable. -/
def formSyllable : Role → Role → Bool
  | .initial, .initial | .initial, .vowel | .initial, .openSyllable => true
  | .initial, .closedSyllable => true
  | .openSyllable, .vowel | .openSyllable, .final | .vowel, .vowel | .vowel, .final => true
  | .closedSyllable, .final | .final, .final => true
  | _, _ => false

end Role

/-- A consonant and a linker end the text read so far, nearest role first, with
nothing but conjunct signs around the linker. -/
def endsLinked (before : List Role) : Bool :=
  (before.takeWhile Role.isConjunctSign).contains .linker &&
    (before.dropWhile Role.isConjunctSign).head? == some .consonant

/-- A pictograph and its extenders end the text read so far, nearest role first. -/
def endsPictograph (before : List Role) : Bool :=
  (before.dropWhile Role.isExtender).head? == some .pictograph

/-- An odd number of regional letters ends the text read so far. -/
def endsHalfFlag (before : List Role) : Bool :=
  (before.takeWhile (· == Role.regional)).length % 2 == 1

/-- Whether a character belongs to the cluster of the one in front of it, given
the roles of all characters before it, nearest first. -/
def joins : List Role → Role → Bool
  | [], _ => false
  | last :: earlier, next =>
      if last.isSeparate || next.isSeparate then
        last == .carriageReturn && next == .lineFeed
      else if next.isAttached || last == .leadingSign || last.formSyllable next then true
      else
        match next with
        | .consonant => endsLinked (last :: earlier)
        | .pictograph => last == .joiner && endsPictograph earlier
        | .regional => endsHalfFlag (last :: earlier)
        | _ => false

/-- The clusters of a character list that stands behind characters of the given
roles, nearest first. -/
def split (before : List Role) : List Char → List (List Char)
  | [] => []
  | c :: rest =>
      let before := Role.of c :: before
      match rest, split before rest with
      | next :: _, cluster :: clusters =>
          if joins before (Role.of next) then (c :: cluster) :: clusters
          else [c] :: cluster :: clusters
      | _, clusters => [c] :: clusters

end Cluster

/-- The clusters of a text. -/
def clusters (text : String) : List (List Char) :=
  Cluster.split [] text.toList

end BytecodeMachine.Text
