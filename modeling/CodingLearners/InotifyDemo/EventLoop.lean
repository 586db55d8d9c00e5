import CodingLearners.Library.ByteMemory
import Mathlib.Algebra.Order.BigOperators.Group.List

/-!
# The event loop of `inotify.c`

Each select is followed by one read of the inotify descriptor, and one event is taken
from the buffer. The kernel packs as many events into it as fit.

## Implementation notes

The host is little-endian. An event is the bytes that the kernel writes: a header of 16
bytes, the name, and the zeros after it, of which there is at least one. An `int` that is
only compared for equality is given by its bits.
-/

namespace CodingLearners.InotifyDemo

open ByteMemory

/-- `sizeof(struct inotify_event)` -/
def sizeofInotifyEvent : Nat := 16

def NAME_MAX : Nat := 255

/-- `sizeof(buf)` -/
def sizeofBuf : Nat := sizeofInotifyEvent + NAME_MAX + 1

/-- What the program prints. -/
inductive Line
  | check
  | watch (me : Bool) (len : Int) (name : List UInt8)
  deriving DecidableEq, Repr

/-! ## The events -/

/-- `struct inotify_event` -/
structure Event where
  wd : UInt32
  mask : UInt32
  cookie : UInt32
  name : List UInt8
  /-- The number of zeros after the name. -/
  padding : Nat
  text : ∀ c ∈ name, c ≠ 0
  terminated : name ≠ [] → 0 < padding
  fits : name.length + padding ≤ NAME_MAX + 1

/-- `len`: the zeros are counted. -/
def Event.len (event : Event) : Nat := event.name.length + event.padding

/-- The bytes in front of the name. -/
def Event.header (event : Event) : List UInt8 :=
  littleEndian 4 event.wd.toNat ++ (littleEndian 4 event.mask.toNat ++
    (littleEndian 4 event.cookie.toNat ++ littleEndian 4 event.len))

def Event.encode (event : Event) : List UInt8 :=
  event.header ++ (event.name ++ List.replicate event.padding 0)

/-- The events that one read returns. -/
structure Group where
  events : List Event
  nonempty : events ≠ []
  fits : (events.flatMap Event.encode).length ≤ sizeofBuf

/-! ## The program -/

/-- What a select and the read after it return. -/
inductive Turn
  | selectFailed
  | timeout
  | ready (bytes : List UInt8)
  | readFailed

/-- `ev->name`, up to its null. -/
def eventName (buf : Memory) : List UInt8 := cString buf sizeofInotifyEvent (NAME_MAX + 1)

/-- The `printf` of the event at the start of the buffer. -/
def printEvent (wd : UInt32) (buf : Memory) : Line :=
  .watch (load buf 0 4 == wd.toNat) ((load buf 12 4 : Int).bmod 0x100000000) (eventName buf)

/-- What follows a read that returns `n`; in the comparison `n` is unsigned. -/
def afterRead (wd : UInt32) (n : Int) (buf : Memory) : List Line :=
  .check :: if (sizeofInotifyEvent : Int) ≤ n % 0x10000000000000000 then [printEvent wd buf] else []

/-- The loop of `main`; each read has a new buffer of zeros. -/
def eventLoop (wd : UInt32) : List Turn → List Line
  | [] => []
  | .selectFailed :: _ => []
  | .timeout :: rest => eventLoop wd rest
  | .ready bytes :: rest =>
      afterRead wd bytes.length (write (fun _ => 0) 0 bytes) ++ eventLoop wd rest
  | .readFailed :: rest => afterRead wd (-1) (fun _ => 0) ++ eventLoop wd rest

/-! ## One read -/

@[simp] theorem Event.length_encode (event : Event) :
    event.encode.length = sizeofInotifyEvent + event.len := by
  simp only [encode, header, List.length_append, length_littleEndian, List.length_replicate, len,
    sizeofInotifyEvent]

/-- The line of an event. -/
def Event.line (wd : UInt32) (event : Event) : Line := .watch (event.wd == wd) event.len event.name

theorem Event.name_lt (event : Event) : event.name.length < NAME_MAX + 1 := by
  have hfits := event.fits
  cases hname : event.name with
  | nil => decide
  | cons c rest =>
      have hpadding := event.terminated (by simp [hname])
      rw [← hname]
      omega

section Fields

variable (event : Event) (rest : List UInt8) (buf : Memory)

/-- The buffer with an event at its start. -/
theorem write_encode :
    write buf 0 (event.encode ++ rest) =
      write (write (write buf 0 event.header) 16 event.name) (16 + event.name.length)
        (List.replicate event.padding 0 ++ rest) := by
  rw [Event.encode, List.append_assoc, List.append_assoc, write_append, write_append]
  rfl

theorem load_wd : load (write buf 0 (event.encode ++ rest)) 0 4 = event.wd.toNat := by
  rw [write_encode, load_write_of_le _ _ (by omega), load_write_of_le _ _ (by decide),
    Event.header, write_append, load_write_of_le _ _ (by simp)]
  exact load_write_littleEndian _ _ event.wd.toNat_lt

theorem load_len : load (write buf 0 (event.encode ++ rest)) 12 4 = event.len := by
  have hlen : event.len ≤ 256 := event.fits
  rw [write_encode, load_write_of_le _ _ (by omega), load_write_of_le _ _ (by decide),
    Event.header, write_append, write_append, write_append]
  exact load_write_littleEndian _ _ (by omega)

/-- A name that is not empty ends with its own null; an empty one needs a zero behind it. -/
theorem eventName_encode (h : 0 < event.padding ∨ rest = []) :
    eventName (write (fun _ => 0) 0 (event.encode ++ rest)) = event.name := by
  rw [write_encode]
  apply cString_eq event.text _ _ event.name_lt
  · calc slice _ 16 event.name.length
        = slice (write (write (fun _ => 0) 0 event.header) 16 event.name) 16
            event.name.length := by
          apply slice_congr
          intro place _ hhigh
          exact write_apply_of_lt _ _ hhigh
      _ = event.name := slice_write _ _ _
  · cases hpadding : event.padding with
    | zero =>
        have hname : event.name = [] := by
          by_contra hne
          have hpos := event.terminated hne
          omega
        rw [h.resolve_left (by omega), hname]
        exact write_apply_of_ge _ _ (by simp [sizeofInotifyEvent])
    | succ padding =>
        rw [List.replicate_succ, List.cons_append, write]
        exact (write_apply_of_lt _ _ (Nat.lt_succ_self _)).trans (Function.update_self _ _ _)

end Fields

/-- An event at the start of the buffer is printed, if it has a name or nothing follows. -/
theorem printEvent_encode (wd : UInt32) (event : Event) {rest : List UInt8}
    (h : 0 < event.padding ∨ rest = []) :
    printEvent wd (write (fun _ => 0) 0 (event.encode ++ rest)) = event.line wd := by
  have hlen : event.len ≤ 256 := event.fits
  have hwd : (event.wd.toNat == wd.toNat) = (event.wd == wd) := by
    rw [Bool.eq_iff_iff, beq_iff_eq, beq_iff_eq, UInt32.toNat_inj]
  rw [printEvent, load_wd, load_len, eventName_encode event rest h, hwd,
    Int.bmod_eq_of_le (by omega) (by omega), Event.line]

/-! ## Runs -/

/-- What the kernel makes of one turn. -/
inductive Delivery
  | selectFailed
  | timeout
  | events (group : Group)

def Delivery.turn : Delivery → Turn
  | selectFailed => .selectFailed
  | timeout => .timeout
  | events group => .ready (group.events.flatMap Event.encode)

/-- The groups that are read; a failed select ends the loop. -/
def groupsRead : List Delivery → List Group
  | [] => []
  | .selectFailed :: _ => []
  | .timeout :: rest => groupsRead rest
  | .events group :: rest => group :: groupsRead rest

/-- The events that are read. -/
def eventsRead (deliveries : List Delivery) : List Event :=
  (groupsRead deliveries).flatMap Group.events

/-- The lines that are printed for events. -/
def watchLines (lines : List Line) : List Line := lines.filter fun line => line != .check

def Line.name : Line → List UInt8
  | check => []
  | watch _ _ name => name

/-- The line that the read of a group prints. -/
def Group.printed (wd : UInt32) (group : Group) : Line :=
  printEvent wd (write (fun _ => 0) 0 (group.events.flatMap Event.encode))

/-- It is that of the first event, if this has a name or is alone. -/
theorem Group.printed_eq (wd : UInt32) {group : Group} {event : Event} {rest : List Event}
    (hevents : group.events = event :: rest) (h : 0 < event.padding ∨ rest = []) :
    group.printed wd = event.line wd := by
  rw [printed, hevents, List.flatMap_cons]
  apply printEvent_encode
  rcases h with h | rfl
  · exact Or.inl h
  · exact Or.inr rfl

theorem Group.length_pos (group : Group) : 0 < group.events.length :=
  List.length_pos_of_ne_nil group.nonempty

/-- A read of whole events prints one line for an event. -/
theorem watchLines_afterRead (wd : UInt32) (group : Group) (buf : Memory) :
    watchLines (afterRead wd (group.events.flatMap Event.encode).length buf) =
      [printEvent wd buf] := by
  have hlow : sizeofInotifyEvent ≤ (group.events.flatMap Event.encode).length := by
    obtain ⟨event, rest, hevents⟩ := List.exists_cons_of_ne_nil group.nonempty
    rw [hevents, List.flatMap_cons, List.length_append, event.length_encode]
    omega
  have hhigh : (group.events.flatMap Event.encode).length ≤ 272 := group.fits
  rw [afterRead, if_pos (by omega)]
  rfl

theorem watchLines_eventLoop (wd : UInt32) (deliveries : List Delivery) :
    watchLines (eventLoop wd (deliveries.map Delivery.turn)) =
      (groupsRead deliveries).map (Group.printed wd) := by
  induction deliveries with
  | nil => rfl
  | cons delivery rest ih =>
      cases delivery with
      | selectFailed => rfl
      | timeout => exact ih
      | events group =>
          calc watchLines (eventLoop wd ((Delivery.events group :: rest).map Delivery.turn))
              = watchLines (afterRead wd (group.events.flatMap Event.encode).length
                  (write (fun _ => 0) 0 (group.events.flatMap Event.encode))) ++
                watchLines (eventLoop wd (rest.map Delivery.turn)) := List.filter_append _ _
            _ = group.printed wd :: (groupsRead rest).map (Group.printed wd) := by
              rw [watchLines_afterRead, ih, List.singleton_append]
              rfl

/-- A list of non-empty groups that has as many members as groups has no larger group. -/
theorem length_flatMap_eq_iff (groups : List Group) :
    groups.length = (groups.flatMap Group.events).length ↔
      ∀ group ∈ groups, group.events.length = 1 := by
  have hle : ∀ groups : List Group, groups.length ≤ (groups.flatMap Group.events).length := by
    intro groups
    induction groups with
    | nil => exact Nat.le_refl 0
    | cons group rest ih =>
        have hpos := group.length_pos
        rw [List.length_cons, List.flatMap_cons, List.length_append]
        omega
  induction groups with
  | nil => simp
  | cons group rest ih =>
      have hpos := group.length_pos
      have hrest := hle rest
      rw [List.length_cons, List.flatMap_cons, List.length_append, List.forall_mem_cons]
      apply Iff.trans _ (and_congr_right fun _ => ih)
      omega

/-- One line for each event, in order and with its name, is printed exactly if every read
returns a single event. -/
theorem prints_each_event_iff (wd : UInt32) (deliveries : List Delivery) :
    (watchLines (eventLoop wd (deliveries.map Delivery.turn))).map Line.name =
        (eventsRead deliveries).map Event.name ↔
      ∀ group ∈ groupsRead deliveries, group.events.length = 1 := by
  rw [watchLines_eventLoop, eventsRead]
  constructor
  · intro h
    have hlength := congrArg List.length h
    simp only [List.length_map] at hlength
    exact (length_flatMap_eq_iff _).mp hlength
  · intro h
    generalize groupsRead deliveries = groups at h ⊢
    induction groups with
    | nil => rfl
    | cons group rest ih =>
        rw [List.forall_mem_cons] at h
        obtain ⟨event, hevents⟩ := List.length_eq_one_iff.mp h.1
        rw [List.map_cons, List.map_cons, ih h.2, List.flatMap_cons, hevents,
          group.printed_eq wd hevents (Or.inr rfl)]
        rfl

/-- The creation of a file with a name of one letter. -/
def created (letter : UInt8) (h : letter ≠ 0) : Event where
  wd := 1
  mask := 0x100
  cookie := 0
  name := [letter]
  padding := 15
  text c hc := List.mem_singleton.mp hc ▸ h
  terminated _ := by decide
  fits := Nat.le_of_ble_eq_true rfl

/-- Two files that are created before the read. -/
def twoCreated : Delivery :=
  .events ⟨[created 97 (by decide), created 98 (by decide)], by simp, by decide⟩

/-- Only the first of them is printed. -/
theorem prints_first_only :
    (watchLines (eventLoop 1 ([twoCreated].map Delivery.turn))).map Line.name = [[97]] ∧
      ¬ (watchLines (eventLoop 1 ([twoCreated].map Delivery.turn))).map Line.name =
        (eventsRead [twoCreated]).map Event.name := by
  have hevents : (eventsRead [twoCreated]).map Event.name = [[97], [98]] := by decide
  have hprinted :
      (watchLines (eventLoop 1 ([twoCreated].map Delivery.turn))).map Line.name = [[97]] := by
    decide
  refine ⟨hprinted, ?_⟩
  rw [hprinted, hevents]
  decide

end CodingLearners.InotifyDemo
