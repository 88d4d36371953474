import Railscale.Capture.Format

/-!
# The capture destination

Model of `train_track/src/capture/pcap.rs`: a destination opens a file when there is none and closes it behind the
response that comes after ten requests. The names of the files and the errors of the file system are left out. Whatever
is written, every file reads back, and the files in order give back the events in order (`files_readBack`).
-/

namespace Railscale

namespace Capture

open Bytes

/-- Rust `PcapDestination`: the files that are closed, the open one and the requests in it. The count is a `u32`, and
wraps as it does in a release build. -/
structure PcapDestination where
  closed : List Bytes
  writer : Option Bytes
  requestCount : UInt32

namespace PcapDestination

/-- Rust `PcapDestination::new`. -/
def new : PcapDestination := ⟨[], none, 0⟩

/-- Rust `PcapDestination::open_file`, when no file is open. -/
def openFile (p : PcapDestination) : Bytes := p.writer.getD (writeShb ++ writeIdb)

/-- Rust `PcapDestination::write_event`, with the time since the file was opened. -/
def writeEvent (p : PcapDestination) (e : Event) : PcapDestination :=
  let file := p.openFile ++ e.write
  let requestCount := if e.direction = .request then p.requestCount + 1 else p.requestCount
  if e.direction = .response ∧ requestCount ≥ 10 then ⟨p.closed ++ [file], none, 0⟩
  else ⟨p.closed, some file, requestCount⟩

/-- All files. -/
def files (p : PcapDestination) : List Bytes := p.closed ++ p.writer.toList

/-- The events of the closed files and of the open one. -/
structure Holds (p : PcapDestination) (closed : List (List Event)) (opened : List Event) : Prop where
  files : p.closed = closed.map captureFile
  file : p.openFile = captureFile opened
  empty : p.writer = none → opened = []

/-- A file with one more event is the file with its block behind it. -/
lemma captureFile_concat (events : List Event) (e : Event) :
    captureFile (events ++ [e]) = captureFile events ++ e.write := by
  rw [captureFile, captureFile, List.flatMap_append, List.append_assoc, List.append_assoc, List.append_assoc,
    List.flatMap_singleton]

/-- A new destination has no file. -/
lemma holds_new : Holds new [] [] where
  files := rfl
  file := (List.append_nil _).symm
  empty _ := rfl

/-- An event goes to the open file, or closes it. -/
lemma Holds.writeEvent {p : PcapDestination} {closed : List (List Event)} {opened : List Event}
    (h : Holds p closed opened) (e : Event) :
    Holds (p.writeEvent e) closed (opened ++ [e]) ∨ Holds (p.writeEvent e) (closed ++ [opened ++ [e]]) [] := by
  have file : p.openFile ++ e.write = captureFile (opened ++ [e]) := by
    rw [h.file, captureFile_concat]
  unfold PcapDestination.writeEvent
  dsimp only
  rw [file]
  generalize (if e.direction = .request then p.requestCount + 1 else p.requestCount) = requestCount
  split
  · refine .inr ⟨?_, (List.append_nil _).symm, fun _ => rfl⟩
    rw [h.files, List.map_append]
    rfl
  · exact .inl ⟨h.files, rfl, nofun⟩

/-- The files hold the events in the order in which they were written. -/
lemma holds_writeAll (events : List Event) {p : PcapDestination} {closed : List (List Event)} {opened : List Event}
    (h : Holds p closed opened) :
    ∃ closed' opened', Holds (events.foldl PcapDestination.writeEvent p) closed' opened' ∧
      closed'.flatten ++ opened' = closed.flatten ++ opened ++ events := by
  induction events generalizing p closed opened with
  | nil => exact ⟨closed, opened, h, (List.append_nil _).symm⟩
  | cons e events ih =>
    rcases h.writeEvent e with h | h
    · obtain ⟨closed', opened', holds, whole⟩ := ih h
      refine ⟨closed', opened', holds, whole.trans ?_⟩
      simp only [List.append_assoc, List.singleton_append]
    · obtain ⟨closed', opened', holds, whole⟩ := ih h
      refine ⟨closed', opened', holds, whole.trans ?_⟩
      simp only [List.flatten_append, List.flatten_cons, List.flatten_nil, List.append_nil, List.append_assoc,
        List.singleton_append]

/-- The files of a destination are the closed ones and the open one, if there is one. -/
lemma Holds.files_eq {p : PcapDestination} {closed : List (List Event)} {opened : List Event}
    (h : Holds p closed opened) :
    ∃ groups : List (List Event), p.files = groups.map captureFile ∧ groups.flatten = closed.flatten ++ opened := by
  rw [PcapDestination.files, h.files]
  cases open' : p.writer with
  | none =>
    refine ⟨closed, List.append_nil _, ?_⟩
    rw [h.empty open', List.append_nil]
  | some file =>
    have same : file = captureFile opened := by
      rw [← h.file, openFile, open']
      rfl
    refine ⟨closed ++ [opened], ?_, ?_⟩
    · rw [same, List.map_append]
      rfl
    · rw [List.flatten_append, List.flatten_singleton]

/-- Whatever events are written, every file reads back, and the files in order give back the events in order. -/
theorem files_readBack {events : List Event} (fits : ∀ e ∈ events, e.Fits) :
    ∃ packets, (events.foldl PcapDestination.writeEvent new).files.mapM readFile = some packets ∧
      packets.flatten = events.map Event.packet := by
  obtain ⟨closed, opened, holds, whole⟩ := holds_writeAll events holds_new
  obtain ⟨groups, files, all⟩ := holds.files_eq
  have split : groups.flatten = events := all.trans whole
  refine ⟨groups.map fun group => group.map Event.packet, ?_, ?_⟩
  · rw [files]
    refine mapM_map fun group mem => readFile_packets fun e he => fits e ?_
    rw [← split]
    exact List.mem_flatten.2 ⟨group, mem, he⟩
  · rw [← split, List.map_flatten]

end PcapDestination

end Capture

end Railscale
