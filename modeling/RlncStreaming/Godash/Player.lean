import RlncStreaming.Godash.Algorithms
import RlncStreaming.Godash.Mpd

/-!
The player (`player/player.go` and `hlsfunc/hlsFunctions.go`).

`streamLoop` downloads one segment for each adaptation set, asks `getNextSegmentDuration` for the
MPD and the number of the next one, and calls itself. `round` is one such call without the call
at its end, `streamLoop` is all of them, and `Run` says which outcomes the calls lead to. The
package variables of the player are in `World`, and what it passes on from call to call for each
adaptation set in `StreamStruct`. With chunk replacement on, the sixth segment makes the player
download the fifth one again, by a call of `streamLoop` with a record that `getHlsSegment` fills.

The clock counts nanoseconds. It moves while a segment is downloaded, and while the player sleeps
because the buffer is full. How long a download takes, what it brings, and what the algorithms
measure is the environment's. Durations in milliseconds are products of 64 bits (`millis`), and
their sums are those of the source as long as they stay below 2^63.

`World.seen` and `World.consults` are not variables of the player. They record what happened.
-/

namespace RlncStreaming.Godash

open Lib

/-! ### State -/

/-- The quality of experience so far. -/
structure QoE where
  sumSegRate : Int
  totalStallDur : Int
  numStalls : Int
  numSwitches : Int
  rateDifference : Int
  sumRateChange : Int
  deriving DecidableEq, Repr

def QoE.zero : QoE := ⟨0, 0, 0, 0, 0, 0⟩

/-- `logging.SegPrintLogInformation` -/
structure Entry where
  arrivalTime : Int
  stallTime : Int
  bandwidth : Int
  actRate : Int
  segSize : Int
  bufferLevel : Int
  adapt : Adapt
  segmentDuration : Int
  playStartPosition : Int
  repIndex : Int
  mpdIndex : Int
  adaptIndex : Int
  segmentIndex : Int
  segReplace : Bool
  qoe : QoE
  mimeType : MimeType
  deriving DecidableEq, Repr

/-- What a map returns for a key that it does not have. -/
def Entry.zero : Entry := ⟨0, 0, 0, 0, 0, 0, .other, 0, 0, 0, 0, 0, 0, false, .zero, .other⟩

/-- `http.StreamStruct` -/
structure StreamStruct where
  segmentNumber : Int
  initBuffer : Int
  maxBuffer : Int
  codec : Codec
  mpdList : List MPD
  adapt : Adapt
  maxHeight : Int
  isByteRangeMPD : Bool
  startTime : Int
  nextRunTime : Int
  arrivalTime : Int
  oldMPDIndex : Int
  nextSegmentNumber : Int
  /-- Whether `Hls` is `"on"`. -/
  hls : Bool
  hlsBool : Bool
  /-- Maps are references. -/
  mapSegmentLogPrintout : Nat
  streamDuration : Int
  hlsUsed : Bool
  bufferLevel : Int
  segmentDurationTotal : Int
  audioContent : Bool
  repRate : Int
  bandwithList : List Int

/-- What happened with a segment. -/
structure Seen where
  /-- The buffer before, and whether playing had begun. -/
  buffer : Int
  playing : Bool
  /-- The time since the segment before had arrived. -/
  gap : Int
  arrived : Int
  /-- When the player was done with it, after it had slept. -/
  ready : Int
  /-- The media time of the segment, in milliseconds. -/
  duration : Int
  /-- The buffer limit, in milliseconds. -/
  limit : Int

/-- A question to `getNextSegmentDuration`, and the answer. -/
structure Consult where
  totalSegmentDuration : Int
  /-- The media time that was downloaded for the adaptation set. -/
  downloaded : Int
  segmentDurations : List Int
  streamDuration : Int
  stopApp : Bool
  mpdIndex : Int
  nextSegmentNumber : Int

/-- The variables about the MPD in use. -/
structure Selection where
  mpdListIndex : Int
  highestMPDrepRateIndex : Int
  lowestMPDrepRateIndex : Int
  segmentDuration : Int
  segmentDurationArray : List Int
  mimeTypes : List Int
  codecList : List (List Codec)
  codecIndexList : List (List Int)

/-- The variables that a download changes. -/
structure Playback where
  clock : Int
  /-- How many downloads there were. -/
  downloads : Nat
  segSize : Int
  waitToPlayCounter : Int
  stallTime : Int
  qoe : QoE
  /-- The entry of a map under a key. -/
  logs : Nat → Int → Option Entry
  seen : List Seen

/-- The variables of the package. -/
structure World where
  sel : Selection
  play : Playback
  segmentNumber : Int
  segmentDurationTotal : Int
  mimeType : MimeType
  mapSegmentLogPrintouts : List Nat
  getQoEBool : Bool
  consults : List Consult

def Playback.entry (p : Playback) (log : Nat) (key : Int) : Entry := (p.logs log key).getD .zero

/-- `m[key] = e` -/
def Playback.setEntry (p : Playback) (log : Nat) (key : Int) (e : Entry) : Playback :=
  { p with logs := fun l k => if l = log ∧ k = key then some e else p.logs l k }

/-! ### Environment -/

/-- What a download is like. -/
structure Input where
  /-- Nanoseconds. -/
  elapsed : Nat
  segSize : Int
  measured : Measured

structure Environment where
  input : Nat → Input
  random : Nat → Nat

/-- Nanoseconds in a millisecond. -/
abbrev nanos : Int := 1000000

/-! ### The next segment -/

/-- The indexes of the MPDs that can go on, with the numbers of their segments. -/
def playableFrom (lastSegmentDuration totalSegmentDuration streamDuration : Int) :
    Int → List Int → Go (List (Int × Int))
  | _, [] => pure []
  | i, d :: ds => do
    let afterLast ← rem lastSegmentDuration (millis d)
    let afterTotal ← rem totalSegmentDuration (millis d)
    let number ← quot totalSegmentDuration (millis d)
    let rest ← playableFrom lastSegmentDuration totalSegmentDuration streamDuration (i + 1) ds
    if (afterLast = 0 ∨ afterTotal = 0) ∧ totalSegmentDuration + millis d ≤ streamDuration then
      pure ((i, number + 1) :: rest)
    else pure rest

def getPlayableSegmentMPDindex (segmentDurations : List Int)
    (lastSegmentDuration totalSegmentDuration streamDuration : Int) : Go (List (Int × Int)) :=
  playableFrom lastSegmentDuration totalSegmentDuration streamDuration 0 segmentDurations

/-- Whether to stop, the MPD and the segment number. The MPD is picked at random. -/
def getNextSegmentDuration (segmentDurations : List Int)
    (lastSegmentDuration totalSegmentDuration streamDuration : Int) (random : Nat) :
    Go (Bool × Int × Int) := do
  let usable ← getPlayableSegmentMPDindex segmentDurations lastSegmentDuration
    totalSegmentDuration streamDuration
  match usable[random % usable.length]? with
  | some (mpdIndex, nextSegmentNumber) => pure (false, mpdIndex, nextSegmentNumber)
  | none => pure (true, 0, 0)

/-! ### One segment -/

/-- `FindInStringArray`: the index, or minus one. -/
def findInStringArray (array : List Codec) (item : Codec) : Bool × Int :=
  match array.findIdx? (· = item) with
  | some i => (true, i)
  | none => (false, -1)

/-- Only the adaptation sets of the codec, and audio. -/
def codecIndex (codecs : List Codec) (codec : Codec) : Go Int :=
  let (used, i) := findInStringArray codecs codec
  if used then pure i else .error .exit

/-- The last but one part of the profiles, which must be there. -/
def profileOf (mpd : MPD) : Go (List Char) :=
  index (mpd.profiles.splitOn ':') ((mpd.profiles.splitOn ':').length - 2)

/-- The codec of the first MPD decides whether this is audio only. -/
def audioOnly (codecList : List (List Codec)) : Go Bool := do
  let codecs ← index codecList 0
  let first ← index codecs 0
  pure (decide (first = .audio) && codecs.length == 1)

section

variable (w : World)

/-- The MIME type of the representation in use. -/
def loadMimeType (s : StreamStruct) (mimeTypeIndex : Nat) : Go MimeType := do
  let mpd ← index s.mpdList w.sel.mpdListIndex
  let set ← mpd.adaptationSet mimeTypeIndex
  let r ← index set.representation s.repRate
  pure r.mimeType

/-- Where the audio rate is read from. -/
def audioLookup (s : StreamStruct) (mimeTypeIndex : Nat) : Go Unit :=
  if s.audioContent ∧ w.mimeType = .audio then do
    let mpd ← index s.mpdList w.sel.mpdListIndex
    let set ← index w.sel.mimeTypes mimeTypeIndex
    let set ← mpd.adaptationSet set
    let _ ← index set.representation s.repRate
    pure ()
  else pure ()

/-- The index of the codec in the MPD. -/
def codecOf (codec : Codec) (mpdListIndex : Int) : Go Int := do
  let only ← audioOnly w.sel.codecList
  let codecs ← index w.sel.codecList mpdListIndex
  if only then pure 0 else codecIndex codecs codec

/-- The values of an MPD are taken over. -/
def Selection.read (sel : Selection) (v : MPDValues) (segmentDuration : Int) : Selection :=
  { sel with
    highestMPDrepRateIndex := v.highestMPDrepRateIndex
    lowestMPDrepRateIndex := v.lowestMPDrepRateIndex
    segmentDuration := segmentDuration
    segmentDurationArray := v.segmentDurationArray }

/-- The variables are read again if the MPD has changed. -/
def changeMPD (s : StreamStruct) (mimeTypeIndex : Nat) : Go (World × StreamStruct) :=
  if s.oldMPDIndex = w.sel.mpdListIndex then pure (w, s)
  else do
    let set ← index w.sel.mimeTypes mimeTypeIndex
    let v ← getMPDValues s.mpdList s.oldMPDIndex s.maxHeight s.streamDuration s.maxBuffer set
      s.isByteRangeMPD
    let segmentDuration ← index v.segmentDurationArray s.oldMPDIndex
    let codecIndex ← codecOf w s.codec s.oldMPDIndex
    let indexes ← index w.sel.codecIndexList s.oldMPDIndex
    let set ← index indexes codecIndex
    let mpd ← index s.mpdList s.oldMPDIndex
    let _ ← profileOf mpd
    pure ({ w with sel := { w.sel.read v segmentDuration with
        mpdListIndex := s.oldMPDIndex
        mimeTypes := w.sel.mimeTypes.set mimeTypeIndex set } },
      { s with streamDuration := v.maxStreamDuration, bandwithList := v.bandwithList })

/-- The rate is kept at or after the index of the highest one. -/
def clampRepRate (s : StreamStruct) : StreamStruct :=
  { s with repRate :=
      if s.repRate < w.sel.highestMPDrepRateIndex then w.sel.highestMPDrepRateIndex
      else s.repRate }

/-- The request is built. -/
def request (s : StreamStruct) (mimeTypeIndex : Nat) : Go Unit := do
  let mpd ← index s.mpdList w.sel.mpdListIndex
  let set ← index w.sel.mimeTypes mimeTypeIndex
  if s.isByteRangeMPD then do
    let _ ← getNextByteRangeURL mpd s.segmentNumber s.repRate set
    pure ()
  else do
    let _ ← getNextSegment mpd s.segmentNumber s.repRate set
    pure ()

end

/-- Without an algorithm nothing is downloaded. -/
def Playback.download (p : Playback) (adapt : Adapt) (input : Input) : Playback :=
  if adapt = .other then p
  else { p with
    clock := p.clock + input.elapsed
    downloads := p.downloads + 1
    segSize := input.segSize }

/-- The milliseconds since the segment before had arrived. -/
def thisRunTimeVal (s : StreamStruct) (clock : Int) : Int := (clock - s.nextRunTime).tdiv nanos

section

variable (w : World) (s : StreamStruct) (clock : Int)

/-- The buffer with the segment that has arrived. It has drained since the segment before if
playing has begun. -/
def filledBuffer : Int :=
  if s.initBuffer ≤ w.play.waitToPlayCounter then
    max (s.bufferLevel - thisRunTimeVal s clock) 0 + millis w.sel.segmentDuration
  else s.bufferLevel + millis w.sel.segmentDuration

/-- A stall is below zero. -/
def newStallTime : Int :=
  if s.initBuffer ≤ w.play.waitToPlayCounter then
    if s.bufferLevel - thisRunTimeVal s clock ≥ 0 then 0
    else s.bufferLevel - thisRunTimeVal s clock
  else w.play.stallTime

/-- How far the buffer is above its limit. -/
def sleepTime : Int :=
  if filledBuffer w s clock > millis s.maxBuffer then filledBuffer w s clock - millis s.maxBuffer
  else 0

end

/-- The segment arrives, it goes into the buffer, and the player sleeps if there is too much. -/
def receive (env : Environment) (w : World) (s : StreamStruct) : World × StreamStruct :=
  let p := w.play.download s.adapt (env.input w.play.downloads)
  let sleep := sleepTime w s p.clock
  ({ w with play := { p with
      clock := p.clock + sleep * nanos
      waitToPlayCounter := p.waitToPlayCounter + 1
      stallTime := newStallTime w s p.clock
      seen := p.seen ++ [{
        buffer := s.bufferLevel
        playing := decide (s.initBuffer ≤ w.play.waitToPlayCounter)
        gap := p.clock - s.nextRunTime
        arrived := p.clock
        ready := p.clock + sleep * nanos
        duration := millis w.sel.segmentDuration
        limit := millis s.maxBuffer }] } },
    { s with
      nextRunTime := p.clock
      arrivalTime := (p.clock - s.startTime).tdiv nanos
      bufferLevel := filledBuffer w s p.clock - sleep
      segmentDurationTotal := s.segmentDurationTotal + millis w.sel.segmentDuration })

/-- The accumulators, from the entry of the segment before. -/
def accumulate (qoe : QoE) (previous : Entry) (segmentNumber bandwidth stallTime : Int) : QoE :=
  if segmentNumber > 1 then {
    sumSegRate := previous.qoe.sumSegRate + bandwidth
    totalStallDur := previous.stallTime + stallTime
    numStalls := if stallTime > 0 then previous.qoe.numStalls + 1 else previous.qoe.numStalls
    numSwitches :=
      if bandwidth = previous.bandwidth then previous.qoe.numSwitches
      else previous.qoe.numSwitches + 1
    rateDifference := (bandwidth - previous.bandwidth).natAbs
    sumRateChange := previous.qoe.sumRateChange + (bandwidth - previous.bandwidth).natAbs }
  else { qoe with
    sumSegRate := bandwidth
    totalStallDur := stallTime
    numStalls := if stallTime > 0 then 1 else 0
    numSwitches := 0 }

section

variable (w : World) (s : StreamStruct)

/-- The accumulators are computed if they are asked for. -/
def score : Go World :=
  if w.getQoEBool then do
    let bandwidth ← index s.bandwithList s.repRate
    let previous := w.play.entry s.mapSegmentLogPrintout (s.segmentNumber - 1)
    pure { w with play := { w.play with
      qoe := accumulate w.play.qoe previous s.segmentNumber bandwidth w.play.stallTime } }
  else pure w

/-- The entry of a segment. -/
def printInformation (hlsReplaced : Bool) (bandwidth actRate adaptIndex : Int) : Entry where
  arrivalTime := s.arrivalTime
  stallTime := w.play.stallTime
  bandwidth := bandwidth
  actRate := actRate
  segSize := w.play.segSize
  bufferLevel := s.bufferLevel
  adapt := s.adapt
  segmentDuration := w.sel.segmentDuration
  playStartPosition := s.segmentDurationTotal
  repIndex := s.repRate
  mpdIndex := w.sel.mpdListIndex
  adaptIndex := adaptIndex
  segmentIndex := s.nextSegmentNumber
  segReplace := hlsReplaced
  qoe := w.play.qoe
  mimeType := w.mimeType

def logSegment (mimeTypeIndex : Nat) (hlsReplaced : Bool) : Go World := do
  let bandwidth ← index s.bandwithList s.repRate
  let actRate ← quot (w.play.segSize * 8) (millis w.sel.segmentDuration)
  let adaptIndex ← index w.sel.mimeTypes mimeTypeIndex
  let information := printInformation w s hlsReplaced bandwidth actRate adaptIndex
  pure { w with play := w.play.setEntry s.mapSegmentLogPrintout s.segmentNumber information }

/-- `CreateQoE` is told the highest bandwidth. -/
def createQoE : Go Unit :=
  if w.getQoEBool then do
    let _ ← index s.bandwithList w.sel.highestMPDrepRateIndex
    pure ()
  else pure ()

/-- The rate of the next segment, which must be in the list. -/
def chooseRepRate (m : Measured) : Go StreamStruct := do
  let repRate := nextRepRate s.adapt m s.repRate s.bandwithList w.sel.highestMPDrepRateIndex
    w.sel.lowestMPDrepRateIndex
  let _ ← index s.bandwithList repRate
  pure { s with repRate := repRate }

end

/-- One segment: it is requested and received, logged, and the rate of the next one is chosen. -/
def segment (env : Environment) (mimeTypeIndex : Nat) (hlsReplaced : Bool) (w : World)
    (s : StreamStruct) : Go (World × StreamStruct) := do
  let measured := (env.input w.play.downloads).measured
  let s := clampRepRate w s
  request w s mimeTypeIndex
  let r := receive env w s
  let w ← score r.1 r.2
  let w ← logSegment w r.2 mimeTypeIndex hlsReplaced
  createQoE w r.2
  let s ← chooseRepRate w r.2 measured
  pure (w, { s with segmentNumber := s.segmentNumber + 1 })

/-! ### Chunk replacement -/

/-- How a call of `streamLoop` ends: it returns a segment number, or it is to call itself. -/
inductive Outcome
  | next (w : World) (structs : List StreamStruct)
  | returned (segmentNumber : Int) (w : World)

/-- `streamLoop` as it is passed to `GetHlsSegment`. -/
abbrev Loop := World → List StreamStruct → Go (Int × World)

/-- The record for the chunk that is to be replaced. It has no bandwidth list. -/
def hlsStruct (w : World) (s : StreamStruct) (log : Nat) (hlsChunkNumber : Int)
    (isByteRangeMPD : Bool) : StreamStruct :=
  let previousChunk := w.play.entry log hlsChunkNumber
  let before := w.play.entry log (hlsChunkNumber - 1)
  { s with
    segmentNumber := hlsChunkNumber
    initBuffer := 0
    adapt := previousChunk.adapt
    isByteRangeMPD := isByteRangeMPD
    oldMPDIndex := previousChunk.mpdIndex
    hls := false
    hlsBool := false
    mapSegmentLogPrintout := log
    streamDuration := before.playStartPosition + millis previousChunk.segmentDuration
    hlsUsed := true
    bufferLevel := before.bufferLevel
    segmentDurationTotal := before.playStartPosition
    bandwithList := [] }

/-- A representation with a location of its own is in one file. -/
def isByteRange (mpd : MPD) : Go Bool := do
  let set ← mpd.adaptationSet 0
  let r ← index set.representation 0
  pure (decide (r.baseURL ≠ []))

/-- The record with which `GetHlsSegment` calls `streamLoop`. -/
def hlsCall (w : World) (s : StreamStruct) (mimeTypeIndex : Nat) (hlsChunkNumber : Int) :
    Go StreamStruct := do
  let log ← index w.mapSegmentLogPrintouts mimeTypeIndex
  let mpd ← index s.mpdList (w.play.entry log hlsChunkNumber).mpdIndex
  let isByteRangeMPD ← isByteRange mpd
  pure (hlsStruct w s log hlsChunkNumber isByteRangeMPD)

/-- The buffer levels after the chunk that was replaced. -/
def changeBufferLevels (p : Playback) (log : Nat)
    (segmentNumber chunkReplace bufferDifference : Int) : Playback :=
  (upTo (chunkReplace + 1) (segmentNumber - 1)).foldl (fun p a =>
    p.setEntry log a { p.entry log a with
      bufferLevel := (p.entry log a).bufferLevel - bufferDifference }) p

/-- `GetHlsSegment`, and what `streamLoop` does with its results. -/
def replaceChunk (f : Loop) (w : World) (s : StreamStruct) (mimeTypeIndex : Nat)
    (chunkReplace : Int) : Go (World × StreamStruct) := do
  let streaminfo ← hlsCall w s mimeTypeIndex chunkReplace
  let log := streaminfo.mapSegmentLogPrintout
  let currentBuffer := (w.play.entry log chunkReplace).bufferLevel
  let (_, w) ← f w [streaminfo]
  let bufferDifference := currentBuffer - (w.play.entry log chunkReplace).bufferLevel
  let play := changeBufferLevels w.play log s.segmentNumber chunkReplace bufferDifference
  pure ({ w with play := play },
    { s with
      nextRunTime := w.play.clock
      bufferLevel := s.bufferLevel - (thisRunTimeVal s w.play.clock + bufferDifference) })

/-- The fifth segment is replaced before the sixth one is downloaded. -/
def replaces (w : World) (s : StreamStruct) : Bool :=
  s.hlsBool && decide (s.segmentNumber > 1) && decide (w.mimeType = .video) && s.hls &&
    decide (s.segmentNumber = 6)

def replaceIfDue (f : Loop) (w : World) (s : StreamStruct) (mimeTypeIndex : Nat) :
    Go (World × StreamStruct) :=
  if replaces w s then replaceChunk f w s mimeTypeIndex 5 else pure (w, s)

/-! ### One call -/

/-- The logs of all adaptation sets are returned. -/
def collectLogs (w : World) (structs : List StreamStruct) : Go World := do
  let logs ← (List.range w.sel.mimeTypes.length).mapM fun k : Nat => do
    let s ← index structs k
    pure s.mapSegmentLogPrintout
  pure { w with mapSegmentLogPrintouts := w.mapSegmentLogPrintouts ++ logs }

/-- Another segment does not fit. -/
def atEnd (w : World) (s : StreamStruct) : Bool :=
  decide (s.segmentDurationTotal + millis w.sel.segmentDuration > s.streamDuration)

def isLast (w : World) (mimeTypeIndex : Nat) : Bool :=
  decide ((mimeTypeIndex : Int) = w.sel.mimeTypes.length - 1)

/-- Everything before the check whether another segment fits. -/
def prepare (f : Loop) (w : World) (s : StreamStruct) (mimeTypeIndex : Nat) :
    Go (World × StreamStruct) := do
  let mimeType ← loadMimeType w s mimeTypeIndex
  let w := { w with mimeType := mimeType }
  audioLookup w s mimeTypeIndex
  let r ← replaceIfDue f w s mimeTypeIndex
  changeMPD r.1 r.2 mimeTypeIndex

/-- The body of the loop over the adaptation sets. -/
def body (env : Environment) (f : Loop) (hlsReplaced : Bool) (mimeTypeIndex : Nat) (w : World)
    (structs : List StreamStruct) : Go Outcome := do
  let s ← index structs mimeTypeIndex
  let r ← prepare f w s mimeTypeIndex
  if atEnd r.1 r.2 && isLast r.1 mimeTypeIndex then do
    let w ← collectLogs r.1 structs
    pure (.returned r.2.segmentNumber w)
  else do
    let t ← segment env mimeTypeIndex hlsReplaced r.1 r.2
    if atEnd t.1 t.2 && isLast t.1 mimeTypeIndex then do
      let w ← collectLogs t.1 structs
      pure (.returned t.2.segmentNumber w)
    else pure (.next t.1 (structs.set mimeTypeIndex t.2))

def sets (env : Environment) (f : Loop) (hlsReplaced : Bool) :
    List Nat → World → List StreamStruct → Go Outcome
  | [], w, structs => pure (.next w structs)
  | i :: is, w, structs => do
    match ← body env f hlsReplaced i w structs with
    | .next w structs => sets env f hlsReplaced is w structs
    | .returned n w => pure (.returned n w)

/-- The question and the answer are recorded. -/
def consulted (w : World) (s : StreamStruct) (answer : Bool × Int × Int) : World :=
  { w with
    mapSegmentLogPrintouts := w.mapSegmentLogPrintouts ++ [s.mapSegmentLogPrintout]
    consults := w.consults ++ [{
      totalSegmentDuration := w.segmentDurationTotal
      downloaded := s.segmentDurationTotal
      segmentDurations := w.sel.segmentDurationArray
      streamDuration := s.streamDuration
      stopApp := answer.1
      mpdIndex := answer.2.1
      nextSegmentNumber := answer.2.2 }] }

/-- The chooser is given the package variable as the total duration. -/
def nextSegment (env : Environment) (w : World) (structs : List StreamStruct) (i : Nat) :
    Go (Bool × World × List StreamStruct) := do
  let s ← index structs i
  let _ ← index w.sel.segmentDurationArray w.sel.mpdListIndex
  let answer ← getNextSegmentDuration w.sel.segmentDurationArray (millis w.sel.segmentDuration)
    w.segmentDurationTotal s.streamDuration (env.random w.consults.length)
  pure (answer.1, consulted w s answer,
    structs.set i { s with oldMPDIndex := answer.2.1, nextSegmentNumber := answer.2.2 })

/-- The answer for the last adaptation set decides whether to stop. -/
def nextSegments (env : Environment) :
    List Nat → Bool → World → List StreamStruct → Go (Bool × World × List StreamStruct)
  | [], stopPlayer, w, structs => pure (stopPlayer, w, structs)
  | i :: is, _, w, structs => do
    let r ← nextSegment env w structs i
    nextSegments env is r.1 r.2.1 r.2.2

/-- One call of `streamLoop`, up to the call at its end. -/
def round (env : Environment) (f : Loop) (w : World) (structs : List StreamStruct) :
    Go Outcome := do
  let first ← index structs 0
  match ← sets env f first.hlsUsed (List.range w.sel.mimeTypes.length) w structs with
  | .returned n w => pure (.returned n w)
  | .next w structs => do
    let r ← nextSegments env (List.range w.sel.mimeTypes.length) false w structs
    if r.1 then pure (.returned r.2.1.segmentNumber r.2.1)
    else pure (.next r.2.1 r.2.2)

/-- `streamLoop`, for so many calls of itself. -/
def streamLoop (env : Environment) : Nat → Loop
  | 0, _, _ => .error .running
  | fuel + 1, w, structs => do
    match ← round env (streamLoop env fuel) w structs with
    | .returned n w => pure (n, w)
    | .next w structs => do
      let (n, w) ← streamLoop env fuel w structs
      pure (n, { w with segmentNumber := n })

/-! ### The first call -/

/-- The arguments of `Stream`, and how long the header of each adaptation set takes. -/
structure Config where
  mpdList : List MPD
  codec : Codec
  maxHeight : Int
  streamDuration : Int
  maxBuffer : Int
  initBuffer : Int
  adapt : Adapt
  hls : Bool
  hlsBool : Bool
  getQoEBool : Bool
  headerTime : Nat → Nat

/-- The codecs of each MPD, the adaptation sets that can be used, and whether there is audio. -/
def getCodec (mpdList : List MPD) (codec : Codec) :
    Go (List (List Codec) × List (List Int) × Bool) := do
  let codecList ← mpdList.mapM fun mpd => do
    let period ← index mpd.periods 0
    period.mapM fun set => do
      let r ← index set.representation 0
      pure r.codecs
  let codecIndexList := codecList.map fun codecs =>
    codecs.zipIdx.map fun c => if c.1 = codec ∨ c.1 = .audio then (c.2 : Int) else -1
  pure (codecList, codecIndexList, codecList.any fun codecs => codecs.any fun c => c = .audio)

/-- Before anything is streamed. -/
def World.start (c : Config) (codecList : List (List Codec)) (codecIndexList : List (List Int)) :
    World where
  sel := ⟨0, 0, 0, 0, [], [], codecList, codecIndexList⟩
  play := ⟨0, 0, 0, 0, 0, .zero, fun _ _ => none, []⟩
  segmentNumber := 1
  segmentDurationTotal := 0
  mimeType := .other
  mapSegmentLogPrintouts := []
  getQoEBool := c.getQoEBool
  consults := []

/-- The header of an adaptation set: where it is looked up. -/
def headerLookup (set : AdaptationSet) (audio isByteRangeMPD : Bool) : Go Unit :=
  if isByteRangeMPD then
    if audio then do
      let _ ← index set.representation 0
      pure ()
    else pure ()
  else do
    let _ ← index set.segmentTemplate 0
    pure ()

/-- Where the audio rate is read from: the adaptation sets are counted, not named. -/
def audioRateLookup (w : World) (mpd : MPD) (audio : Bool) (repRate : Int) : Go Unit :=
  if audio then do
    let set ← mpd.adaptationSet w.sel.mimeTypes.length
    let _ ← index set.representation repRate
    pure ()
  else pure ()

/-- The record of an adaptation set that is used. -/
def firstStruct (c : Config) (w : World) (v : MPDValues) (isByteRangeMPD audioContent : Bool)
    (log : Nat) : StreamStruct where
  segmentNumber := 1
  initBuffer := c.initBuffer
  maxBuffer := c.maxBuffer
  codec := c.codec
  mpdList := c.mpdList
  adapt := c.adapt
  maxHeight := c.maxHeight
  isByteRangeMPD := isByteRangeMPD
  startTime := w.play.clock
  nextRunTime := w.play.clock
  arrivalTime := 0
  oldMPDIndex := 0
  nextSegmentNumber := 0
  hls := c.hls
  hlsBool := c.hlsBool
  mapSegmentLogPrintout := log
  streamDuration := c.streamDuration
  hlsUsed := false
  bufferLevel := 0
  segmentDurationTotal := 0
  audioContent := audioContent
  repRate := v.lowestMPDrepRateIndex
  bandwithList := v.bandwithList

/-- The variables after an adaptation set was added. -/
def addedWorld (c : Config) (w : World) (v : MPDValues) (set : Nat) (segmentDuration : Int) :
    World :=
  { w with
    sel := { w.sel.read v segmentDuration with mimeTypes := w.sel.mimeTypes ++ [(set : Int)] }
    play := { w.play with clock := w.play.clock + c.headerTime set } }

/-- An adaptation set is added. The indexes of the rates are those of the last one. -/
def addSet (c : Config) (audioContent : Bool) (acc : World × List StreamStruct)
    (entry : Int × Nat) : Go (World × List StreamStruct) :=
  if entry.1 = -1 then pure acc
  else do
    let mpd ← index c.mpdList 0
    let byteRange ← isByteRange mpd
    let v ← getMPDValues c.mpdList 0 c.maxHeight c.streamDuration c.maxBuffer entry.2 byteRange
    let _ ← profileOf mpd
    let codecs ← index acc.1.sel.codecList 0
    let codec ← index codecs entry.2
    let audio := audioContent && decide (codec = .audio)
    audioRateLookup acc.1 mpd audio v.lowestMPDrepRateIndex
    let set ← mpd.adaptationSet entry.2
    headerLookup set audio byteRange
    let segmentDuration ← index v.segmentDurationArray 0
    let w := addedWorld c acc.1 v entry.2 segmentDuration
    pure (w, acc.2 ++ [firstStruct c w v byteRange audioContent acc.2.length])

/-- `Stream`, up to the first call of `streamLoop`. -/
def stream (c : Config) : Go (World × List StreamStruct) := do
  let (codecList, codecIndexList, audioContent) ← getCodec c.mpdList c.codec
  let codecs ← index codecList 0
  let only ← audioOnly codecList
  if only || (findInStringArray codecs c.codec).1 then do
    let indexes ← index codecIndexList 0
    indexes.zipIdx.foldlM (addSet c audioContent) (World.start c codecList codecIndexList, [])
  else .error .exit

/-! ### Runs -/

/-- The outcomes that calls of `streamLoop` lead to. -/
inductive Run (env : Environment) (f : Loop) (start : Outcome) : Outcome → Prop
  | start : Run env f start start
  | call {w : World} {structs : List StreamStruct} {q : Outcome} :
      Run env f start (.next w structs) → round env f w structs = .ok q → Run env f start q

def Outcome.world : Outcome → World
  | .next w _ => w
  | .returned _ w => w

end RlncStreaming.Godash
