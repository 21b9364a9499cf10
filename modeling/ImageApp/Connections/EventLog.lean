import ImageApp.Server.Log
import Mathlib.Data.List.Forall2

/-!
# What the log tells

All threads print to one stream, whose lock makes a line one step, so the log holds the lines of the
events in some order. The names in them are chosen by the clients, and a name may hold a newline.

It holds no blank, though, and every line tells by its blanks where its name ends: `lineText` is the
line in its parts, each of which is self-delimiting. So `logText_eq_iff` is about every two rows of
events: they leave the same log if and only if they are the same events in the same order, but for
what a line does not show, the ports of requests. No client can have another event be logged by the
name that it asks for.
-/

set_option autoImplicit false
set_option relaxedAutoImplicit false

namespace ImageApp.Connections

open Foundations.CStrings Foundations.PrefixCodes Server

/-! ### The log -/

/-- The text of a time, for years of four digits. -/
abbrev TimeBuf := {text : List Byte // text.length = 19}

/-- An event with its time and the address of the client. -/
structure LogEntry where
  timeBuf : TimeBuf
  event : EventType
  sockaddrIn : SockaddrIn

/-- The log after some events. -/
def logText (entries : List LogEntry) : List Byte :=
  entries.flatMap fun entry ↦ writeEventLog entry.timeBuf entry.event entry.sockaddrIn

/-- The events are the same but for what the line does not show: the port is shown when a connection
is accepted or closed, and of an image one of its two names. -/
def SameEvent (entry other : LogEntry) : Prop :=
  match entry.event, other.event with
  | .connectionAccepted, .connectionAccepted | .connectionClosed, .connectionClosed =>
    entry.sockaddrIn = other.sockaddrIn
  | .logEmptyMessage, .logEmptyMessage | .logMaxNumRequests, .logMaxNumRequests =>
    entry.sockaddrIn.1 = other.sockaddrIn.1
  | .logImageRequested image, .logImageRequested image' =>
    entry.sockaddrIn.1 = other.sockaddrIn.1 ∧ image.cachePath = image'.cachePath
  | .logImageNotPresent image, .logImageNotPresent image' =>
    entry.sockaddrIn.1 = other.sockaddrIn.1 ∧ image.imageName = image'.imageName
  | _, _ => False

/-- The same event at the same time. -/
def Alike (entry other : LogEntry) : Prop :=
  entry.timeBuf = other.timeBuf ∧ SameEvent entry other

/-! ### The parts of a line -/

/-- What a line starts with. -/
inductive Subject
  | accepted
  | closed
  | client
  deriving DecidableEq

def Subject.text : Subject → List Byte
  | .accepted => bytes ">> : a client has connected. Its address is "
  | .closed => bytes ">> : a client has disconnected. Its address was "
  | .client => bytes ">> : the client "

/-- What the client of the third kind of line has done. -/
inductive Deed
  | requested
  | disconnected
  | finished
  | notPresent
  deriving DecidableEq

def Deed.text : Deed → List Byte
  | .requested => bytes "has requested ../cache/"
  | .disconnected => bytes "has disconnected\n"
  | .finished => bytes "has finished its number of requests\n"
  | .notPresent => bytes "has requested the image "

/-- The name behind it. -/
def Deed.Detail : Deed → Type
  | .requested | .notPresent => Unspaced
  | .disconnected | .finished => Unit

def Deed.write : (deed : Deed) → deed.Detail → List Byte
  | .requested, name => (name.val ++ [space]) ++ bytes "image\n"
  | .notPresent, name => (name.val ++ [space]) ++ bytes "that is not present\n"
  | .disconnected, _ | .finished, _ => []

/-- What follows the address: the port, or what the client has done. -/
def Subject.Detail : Subject → Type
  | .accepted | .closed => UInt16
  | .client => Sigma Deed.Detail

def Subject.write : (subject : Subject) → subject.Detail → List Byte
  | .accepted, port | .closed, port =>
    bytes "and was given " ++ ((intText (ntohs port) ++ [space]) ++ bytes "port\n")
  | .client, detail => detail.1.text ++ detail.1.write detail.2

/-- A line in its parts. -/
abbrev Line := TimeBuf × Σ subject : Subject, UInt32 × subject.Detail

/-- The text of a line. -/
def lineText (line : Line) : List Byte :=
  bytes "<<" ++ (line.1.val ++ (line.2.1.text ++
    ((inetNtoa line.2.2.1 ++ [space]) ++ line.2.1.write line.2.2.2)))

/-! ### Every part tells where it ends -/

theorem selfDelimiting_timeBuf : SelfDelimiting fun timeBuf : TimeBuf ↦ timeBuf.val :=
  selfDelimiting_of_length Subtype.prop Subtype.val_injective

theorem selfDelimiting_subject : SelfDelimiting Subject.text := by
  apply selfDelimiting_of_prefixFree
  intro first second
  cases first <;> cases second <;> decide +kernel

theorem selfDelimiting_deed : SelfDelimiting Deed.text := by
  apply selfDelimiting_of_prefixFree
  intro first second
  cases first <;> cases second <;> decide +kernel

theorem selfDelimiting_address : SelfDelimiting fun sinAddr ↦ inetNtoa sinAddr ++ [space] :=
  selfDelimiting_stop inetNtoa_injective space_notMem_inetNtoa

theorem selfDelimiting_port : SelfDelimiting fun port ↦ intText (ntohs port) ++ [space] := by
  refine selfDelimiting_stop (fun port port' heq ↦ ?_) fun port ↦
    notMem_intText (Or.inl (by decide)) _
  exact ntohs_injective (intText_injective (ntohs_lt port) (ntohs_lt port') heq)

/-- A name ends at the blank behind it. -/
theorem selfDelimiting_name : SelfDelimiting fun name : Unspaced ↦ name.val ++ [space] :=
  selfDelimiting_stop Subtype.val_injective Subtype.prop

theorem selfDelimiting_deedWrite (deed : Deed) : SelfDelimiting deed.write := by
  cases deed with
  | requested => exact selfDelimiting_name.appendConst (bytes "image\n")
  | notPresent => exact selfDelimiting_name.appendConst (bytes "that is not present\n")
  | disconnected | finished => exact fun _ _ _ _ heq ↦ ⟨rfl, heq⟩

theorem selfDelimiting_subjectWrite (subject : Subject) : SelfDelimiting subject.write := by
  cases subject with
  | accepted | closed =>
    exact (selfDelimiting_port.appendConst (bytes "port\n")).constAppend (bytes "and was given ")
  | client => exact selfDelimiting_deed.sigma selfDelimiting_deedWrite

/-- A line tells its parts and where it ends. -/
theorem selfDelimiting_lineText : SelfDelimiting lineText := by
  have hbehind : ∀ subject : Subject, SelfDelimiting fun pair : UInt32 × subject.Detail ↦
      (inetNtoa pair.1 ++ [space]) ++ subject.write pair.2 := fun subject ↦
    selfDelimiting_address.prod (selfDelimiting_subjectWrite subject)
  exact (selfDelimiting_timeBuf.prod (selfDelimiting_subject.sigma hbehind)).constAppend _

/-! ### The lines of the events -/

/-- The line of an event, in its parts. -/
def LogEntry.line (entry : LogEntry) : Line :=
  (entry.timeBuf,
    match entry.event with
    | .connectionAccepted => ⟨.accepted, entry.sockaddrIn⟩
    | .connectionClosed => ⟨.closed, entry.sockaddrIn⟩
    | .logImageRequested image => ⟨.client, entry.sockaddrIn.1, .requested, image.cacheFile⟩
    | .logEmptyMessage => ⟨.client, entry.sockaddrIn.1, .disconnected, ()⟩
    | .logMaxNumRequests => ⟨.client, entry.sockaddrIn.1, .finished, ()⟩
    | .logImageNotPresent image => ⟨.client, entry.sockaddrIn.1, .notPresent, image.imageName⟩)

/-- `write_event_log` prints the parts of the line. -/
theorem writeEventLog_eq (entry : LogEntry) :
    writeEventLog entry.timeBuf entry.event entry.sockaddrIn = lineText entry.line := by
  obtain ⟨timeBuf, event, sockaddrIn⟩ := entry
  have hgiven : bytes " and was given " = [space] ++ bytes "and was given " := rfl
  have hport : bytes " port\n" = [space] ++ bytes "port\n" := rfl
  have hrequested : bytes " has requested " ++ imageCache =
      [space] ++ bytes "has requested ../cache/" := rfl
  have himage : bytes " image\n" = [space] ++ bytes "image\n" := rfl
  have hdisconnected : bytes " has disconnected\n" = [space] ++ bytes "has disconnected\n" := rfl
  have hfinished : bytes " has finished its number of requests\n" =
      [space] ++ bytes "has finished its number of requests\n" := rfl
  have hnamed : bytes " has requested the image " =
      [space] ++ bytes "has requested the image " := rfl
  have hnotPresent : bytes " that is not present\n" =
      [space] ++ bytes "that is not present\n" := rfl
  cases event with
  | connectionAccepted | connectionClosed =>
    simp only [writeEventLog, lineText, LogEntry.line, Subject.text, Subject.write, hgiven, hport,
      List.append_assoc]
  | logImageRequested image =>
    simp only [writeEventLog, lineText, LogEntry.line, Subject.text, Subject.write, Deed.text,
      Deed.write, LoggedImage.cachePath, himage, List.append_assoc]
    rw [← List.append_assoc (bytes " has requested "), hrequested, List.append_assoc]
  | logEmptyMessage =>
    simp only [writeEventLog, lineText, LogEntry.line, Subject.text, Subject.write, Deed.text,
      Deed.write, hdisconnected, List.append_assoc, List.append_nil]
  | logMaxNumRequests =>
    simp only [writeEventLog, lineText, LogEntry.line, Subject.text, Subject.write, Deed.text,
      Deed.write, hfinished, List.append_assoc, List.append_nil]
  | logImageNotPresent image =>
    simp only [writeEventLog, lineText, LogEntry.line, Subject.text, Subject.write, Deed.text,
      Deed.write, hnamed, hnotPresent, List.append_assoc]

/-- The cache path can be told from the part behind the directory. -/
theorem cachePath_eq_iff {image image' : LoggedImage} :
    image.cachePath = image'.cachePath ↔ image.cacheFile = image'.cacheFile := by
  rw [LoggedImage.cachePath, LoggedImage.cachePath, List.append_cancel_left_eq, Subtype.ext_iff]

/-- Events with the same line are alike. Lines of different kinds are not the same. -/
theorem alike_of_line_eq {entry other : LogEntry} (heq : entry.line = other.line) :
    Alike entry other := by
  obtain ⟨timeBuf, event, sinAddr, sinPort⟩ := entry
  obtain ⟨timeBuf', event', sinAddr', sinPort'⟩ := other
  rw [LogEntry.line, LogEntry.line, Prod.mk.injEq] at heq
  obtain ⟨htime, hsaid⟩ := heq
  refine ⟨htime, ?_⟩
  rcases event with _ | ⟨name, file⟩ | _ | _ | ⟨name, file⟩ | _ <;>
    rcases event' with _ | ⟨name', file'⟩ | _ | _ | ⟨name', file'⟩ | _ <;>
    cases hsaid <;> simp [SameEvent, LoggedImage.cachePath]

/-- Events that are alike have the same line. -/
theorem line_eq_of_alike {entry other : LogEntry} (halike : Alike entry other) :
    entry.line = other.line := by
  obtain ⟨htime, hsame⟩ := halike
  rw [LogEntry.line, LogEntry.line, htime]
  unfold SameEvent at hsame
  split at hsame
  iterate 4
    next hevent hother => simp only [hevent, hother, hsame]
  · next image image' hevent hother =>
      obtain ⟨haddress, hpath⟩ := hsame
      simp only [hevent, hother, haddress, cachePath_eq_iff.mp hpath]
  · next image image' hevent hother =>
      obtain ⟨haddress, hname⟩ := hsame
      simp only [hevent, hother, haddress, hname]
  · exact hsame.elim

/-- Two rows of events leave the same log if and only if they are the same events in the same order,
but for what the lines do not show. -/
theorem logText_eq_iff (first second : List LogEntry) :
    logText first = logText second ↔ List.Forall₂ Alike first second := by
  have hne : ∀ line, lineText line ≠ [] := fun line ↦
    List.append_ne_nil_of_left_ne_nil (by decide) _
  have hlog : ∀ entries, logText entries = (entries.map LogEntry.line).flatMap lineText := by
    intro entries
    rw [logText, List.flatMap_map]
    exact List.flatMap_congr fun entry _ ↦ writeEventLog_eq entry
  have hlines : first.map LogEntry.line = second.map LogEntry.line ↔
      List.Forall₂ Alike first second := by
    have hline : ∀ entry other, entry.line = other.line ↔ Alike entry other := fun _ _ ↦
      ⟨alike_of_line_eq, line_eq_of_alike⟩
    rw [← List.forall₂_eq_eq_eq, List.forall₂_map_left_iff, List.forall₂_map_right_iff]
    simp only [hline]
  rw [hlog, hlog, (selfDelimiting_lineText.flatMap_injective hne).eq_iff, hlines]

end ImageApp.Connections
