import ShardCommon.Multicast

/-!
# BEEF topics

`objfmt/beef.go`: writing a submission record, and reading the topics of a frame back. A frame carries
the record verbatim and says how many of its leading names are deliverable; the others are labels.
-/

namespace ShardCommon.Objfmt

open Go ShardCommon.Frame

/-! ## Records -/

/-- `utf8.ValidString`. -/
def validString (t : Bytes) : Bool := (ByteArray.mk t.toArray).validateUTF8

section Encode

-- `quote` is the `%q` of the error text
variable (quote : Bytes → String)

/-- One round of the loop that checks the topics and adds up their sizes. -/
def topicSize (size : Nat) (t : Bytes) : SizeRun Nat := do
  Run.failIf (t.length < 1 ∨ beefMaxTopicLen < t.length ∨ validString t = false)
    (.malformed ("invalid topic " ++ quote t))
  Run.add size (1 + t.length)

def encodeBEEFRecordHeader (topics : List Bytes) (objectLen : Int) : SizeRun Bytes := do
  Run.failIf (topics.length < 1 ∨ beefMaxTopics < topics.length)
    (.malformed ("topic count " ++ outside topics.length 1 beefMaxTopics))
  Run.failIf (objectLen ≤ 0) (.malformed "empty object")
  Run.failIf (2 ^ 32 - 1 < objectLen) (.malformed ("object of " ++ toString objectLen ++ " bytes"))
  let size ← topics.foldlM (topicSize quote) beefRecordMin
  let size ← Run.add size 4
  Run.make 1 size
  let out := putUint16 beefRecordTag ++ [beefRecordVer, UInt8.ofNat topics.length]
  let out := topics.foldl (fun out t => out ++ [UInt8.ofNat t.length] ++ t) out
  pure (out ++ putUint32 (UInt32.ofNat objectLen.toNat))

def encodeBEEFRecord (topics : List Bytes) (object : Bytes) : SizeRun Bytes := do
  let hdr ← encodeBEEFRecordHeader quote topics object.length
  let size ← Run.add hdr.length object.length
  Run.make 1 size
  pure (hdr ++ object)

end Encode

/-! ## Frames -/

/-- The object and the names of a payload. Without the record tag it is a bare object. -/
def splitBEEFPayload (payload : Bytes) : SizeRun (Bytes × List Bytes) :=
  if 2 ≤ payload.length ∧ uint16 (payload.take 2) = beefRecordTag then do
    let decoded ← decodeBEEFRecord payload
    Run.failIf (decoded.2 ≠ payload.length) (.malformed
      (toString (payload.length - decoded.2) ++ " trailing bytes after record"))
    pure (decoded.1.object, decoded.1.topics)
  else pure (payload, [])

/-- The header's topic, then the next names of the record. A payload that does not split counts as
one without names. -/
def beefDeliverableTopicIDs (sha256 : Bytes → FixedBytes 32) (bf : BEEFFrame) :
    SizeRun (List (FixedBytes 32)) := do
  let ids := [bf.topicID]
  let want := bf.deliverable
  if want ≤ 1 then pure ids
  else
    match ← (splitBEEFPayload bf.payload).attempt with
    | .error _ => pure ids
    | .ok (_, topics) =>
      if topics.length < 2 then pure ids
      else
        let want := if topics.length < want then topics.length else want
        let names ← Run.slice topics 1 want
        pure (ids ++ names.map (topicID sha256))

end ShardCommon.Objfmt
