import FlatScript.Proofs.Eval.Coupling
import FlatScript.Script

/-!
# Line ends

A console takes lines off a stream of bytes, while a host in memory has them as they are.  In the
stream a line ends with a newline, or with a carriage return and a newline, and the last line may
lack its end.  Whichever it is, line by line, a program cannot tell the two hosts apart.
-/

namespace FlatScript

/-! ### Bytes of a text -/

namespace Console

/-- The bytes of a text in UTF-8. -/
def bytes (text : String) : List UInt8 :=
  text.toUTF8.data.toList

/-- The bytes of a text behind another come behind its bytes. -/
theorem bytes_append (first second : String) :
    bytes (first ++ second) = bytes first ++ bytes second := by
  simp only [bytes, String.toUTF8_eq_toByteArray, String.toByteArray_append, ByteArray.data_append,
    Array.toList_append]

/-- The bytes of a text are those of its characters, one after another. -/
theorem bytes_eq_flatMap (text : String) :
    bytes text = text.toList.flatMap String.utf8EncodeChar := by
  rw [bytes, String.toUTF8_eq_toByteArray, ← String.ofList_toList (s := text),
    String.toByteArray_ofList, String.toList_ofList]
  exact List.toList_data_toByteArray

/-- A text can be read back from its bytes. -/
theorem fromUTF8?_bytes (text : String) :
    String.fromUTF8? (bytes text).toByteArray = some text := by
  have hbytes : (bytes text).toByteArray = text.toByteArray := by
    apply ByteArray.ext
    rw [List.data_toByteArray, bytes, Array.toArray_toList, String.toUTF8_eq_toByteArray]
  rw [String.fromUTF8?, hbytes, dif_pos text.isValidUTF8]
  rfl

/-- The bytes tell the text. -/
theorem bytes_inj {first second : String} (hbytes : bytes first = bytes second) :
    first = second := by
  have hfirst := fromUTF8?_bytes first
  rw [hbytes, fromUTF8?_bytes] at hfirst
  exact (Option.some.inj hfirst).symm

theorem newline_ne_ofNat {code : Nat} (hcode : code % 256 ≠ 10) : newline ≠ UInt8.ofNat code :=
  fun hsame => hcode (congrArg UInt8.toNat hsame).symm

/-- Of all characters only a newline has the byte that ends a line: all bytes of a character that
has several are beyond 127. -/
theorem newline_notMem_utf8EncodeChar {c : Char} (hc : c ≠ '\n') :
    newline ∉ String.utf8EncodeChar c := by
  have hval : c.val.toNat ≠ 10 := fun hval => hc (Char.toNat_inj.mp hval)
  fun_cases String.utf8EncodeChar c <;>
    simp only [List.mem_cons, List.not_mem_nil, or_false, not_or]
  · exact newline_ne_ofNat (by omega)
  · exact ⟨newline_ne_ofNat (by omega), newline_ne_ofNat (by omega)⟩
  · exact ⟨newline_ne_ofNat (by omega), newline_ne_ofNat (by omega), newline_ne_ofNat (by omega)⟩
  · exact ⟨newline_ne_ofNat (by omega), newline_ne_ofNat (by omega), newline_ne_ofNat (by omega),
      newline_ne_ofNat (by omega)⟩

/-- The bytes of a text without a newline have none. -/
theorem newline_notMem_bytes {text : String} (htext : '\n' ∉ text.toList) :
    newline ∉ bytes text := by
  rw [bytes_eq_flatMap]
  intro hmem
  obtain ⟨c, hc, hbyte⟩ := List.mem_flatMap.mp hmem
  refine newline_notMem_utf8EncodeChar ?_ hbyte
  rintro rfl
  exact htext hc

/-! ### The first line of a stream -/

/-- Bytes without a newline are one line, to the end. -/
theorem splitLine_of_notMem {line : List UInt8} (hline : newline ∉ line) :
    splitLine line = (line, []) := by
  induction line with
  | nil => rfl
  | cons byte line ih =>
      obtain ⟨hbyte, hline⟩ := not_or.mp (mt List.mem_cons.mpr hline)
      rw [splitLine, if_neg (Ne.symm hbyte), ih hline]

/-- The first line ends with the first newline. -/
theorem splitLine_append {line : List UInt8} (hline : newline ∉ line) (rest : List UInt8) :
    splitLine (line ++ newline :: rest) = (line ++ [newline], rest) := by
  induction line with
  | nil => rfl
  | cons byte line ih =>
      obtain ⟨hbyte, hline⟩ := not_or.mp (mt List.mem_cons.mpr hline)
      rw [List.cons_append, splitLine, if_neg (Ne.symm hbyte), ih hline]
      rfl

/-- A line that does not end with a newline is kept as it is. -/
theorem trimLine_unended {line : List Char} (hline : '\n' ∉ line) : trimLine line = line := by
  rw [trimLine, if_neg]
  exact fun hlast => hline (List.mem_of_getLast? hlast)

/-- A newline at the end of a line is dropped. -/
theorem trimLine_newline {line : List Char} (hreturn : line.getLast? ≠ some '\r') :
    trimLine (line ++ ['\n']) = line := by
  simp [trimLine, dropEnd, hreturn]

/-- One carriage return goes, also if there are several. -/
theorem trimLine_returnNewline (line : List Char) :
    trimLine (line ++ ['\r', '\n']) = line := by
  simp [trimLine, dropEnd]

/-- Bytes of a text that come first in a stream, up to a line end, are read as that text. -/
theorem readLine_of_splitLine {output line : String} {input rest : List UInt8} (hsome : line ≠ "")
    (hsplit : splitLine input = (bytes line, rest)) :
    readLine ⟨output, input⟩ =
      .ok (some (String.ofList (trimLine line.toList))) ⟨output, rest⟩ := by
  have hbytes : (bytes line).isEmpty = false :=
    List.isEmpty_eq_false_iff.mpr fun hnil => hsome (bytes_inj hnil)
  simp only [readLine, hsplit, hbytes, fromUTF8?_bytes]
  rfl

/-- A console reads a line up to its newline. -/
theorem readLine_newline {line : String} (hline : '\n' ∉ line.toList) (output text : String) :
    readLine ⟨output, bytes (line ++ "\n" ++ text)⟩ =
      .ok (some (String.ofList (trimLine (line.toList ++ ['\n'])))) ⟨output, bytes text⟩ := by
  have hsplit : splitLine (bytes (line ++ "\n" ++ text)) = (bytes (line ++ "\n"), bytes text) := by
    have hnewline : bytes "\n" = [newline] := by decide
    rw [bytes_append, bytes_append, hnewline, List.append_assoc, List.singleton_append]
    exact splitLine_append (newline_notMem_bytes hline) (bytes text)
  rw [readLine_of_splitLine ?_ hsplit, String.toList_append]
  · rfl
  · simp

/-- The lines that a text is made of.  Each ends with a newline, or with a carriage return and a
newline.  What comes before a newline alone does not end with a carriage return; and if there is
something behind the last line end, it is a line as well. -/
inductive LinesOf : String → List String → Prop
  | nil : LinesOf "" []
  | unended {line : String} (hline : '\n' ∉ line.toList) (hsome : line ≠ "") : LinesOf line [line]
  | newline {line text : String} {lines : List String} (hline : '\n' ∉ line.toList)
      (hreturn : line.toList.getLast? ≠ some '\r') (htext : LinesOf text lines) :
      LinesOf (line ++ "\n" ++ text) (line :: lines)
  | returnNewline {line text : String} {lines : List String} (hline : '\n' ∉ line.toList)
      (htext : LinesOf text lines) : LinesOf (line ++ "\r\n" ++ text) (line :: lines)

/-- **A console reads the lines of a text one after the other.** -/
theorem readLine_of_linesOf {text : String} {lines : List String} (hlines : LinesOf text lines)
    (output : String) : ∃ rest, LinesOf rest lines.tail ∧
      readLine ⟨output, bytes text⟩ = .ok lines.head? ⟨output, bytes rest⟩ := by
  cases hlines with
  | nil => exact ⟨"", .nil, rfl⟩
  | unended hline hsome =>
      refine ⟨"", .nil, ?_⟩
      rw [readLine_of_splitLine hsome (splitLine_of_notMem (newline_notMem_bytes hline)),
        trimLine_unended hline, String.ofList_toList]
      rfl
  | newline hline hreturn htext =>
      refine ⟨_, htext, ?_⟩
      rw [readLine_newline hline, trimLine_newline hreturn, String.ofList_toList]
      rfl
  | @returnNewline line text _ hline htext =>
      refine ⟨_, htext, ?_⟩
      have hend : "\r\n" = "\r" ++ "\n" := rfl
      have hreturn : '\n' ∉ (line ++ "\r").toList := by
        simp [hline]
      have htrim : trimLine ((line ++ "\r").toList ++ ['\n']) = line.toList := by
        rw [String.toList_append, List.append_assoc]
        exact trimLine_returnNewline line.toList
      rw [hend, ← String.append_assoc, readLine_newline hreturn, htrim, String.ofList_toList]
      rfl

/-! ### Programs at a console -/

/-- A console and a host in memory that have written the same and have the same lines to read. -/
def sameLines : Coupling Console MemoryHost where
  functions _ := True
  hosts console memory := memory.writesLeft = none ∧
    ∃ text, LinesOf text memory.input ∧ console = ⟨memory.output, bytes text⟩
  halts _ := True

/-- Both hosts write the same. -/
theorem write_sameLines (text : String) :
    sameLines.CoupledOnHost (Host.write text) (Host.write text) := by
  rintro _ ⟨output, lines, _⟩ ⟨rfl, unread, hlines, rfl⟩
  exact ⟨.ok (), ⟨output ++ text, bytes unread⟩, ⟨output ++ text, lines, none⟩,
    ⟨rfl, unread, hlines, rfl⟩, rfl, rfl⟩

/-- Both hosts give the same line, or have none left. -/
theorem nextLine_sameLines : sameLines.CoupledOnHost Builtin.nextLine Builtin.nextLine := by
  rintro _ ⟨output, lines, _⟩ ⟨rfl, unread, hlines, rfl⟩
  obtain ⟨rest, hrest, hread⟩ := readLine_of_linesOf hlines output
  have hhosts : sameLines.hosts ⟨output, bytes rest⟩ ⟨output, lines.tail, none⟩ :=
    ⟨rfl, rest, hrest, rfl⟩
  have hnext (next : Option String → HostM Console Value) :
      (Host.readLine >>= next) ⟨output, bytes unread⟩ = next lines.head? ⟨output, bytes rest⟩ := by
    simp only [Bind.bind, EStateM.bind, Host.readLine, hread]
  cases lines with
  | nil => exact ⟨.error .endOfInput, _, _, hhosts, hnext _, rfl⟩
  | cons line lines => exact ⟨.ok (.str line), _, _, hhosts, hnext _, rfl⟩

/-- **An evaluation goes the same way** against a console and a host in memory. -/
theorem eval_sameLines (fuel : Nat) (node : Node) :
    sameLines.Coupled (node.eval Builtins.standard fuel) (node.eval Builtins.standard fuel) := by
  have hfails (reason : HostError) : sameLines.halts (.failed (.host reason)) := trivial
  have hbuiltins := sameLines.congruence.standard
    (fun text => Coupling.Coupled.onHost hfails (write_sameLines text))
    (Coupling.Coupled.onHost hfails nextLine_sameLines)
  refine sameLines.congruence.eval hbuiltins (fun _ _ _ => Coupling.Coupled.halt trivial)
    (Coupling.Coupled.halt trivial)
    (fun update => Coupling.Coupled.update update fun _ _ => trivial) ?_ fuel node
  intro start run other hrun
  exact Coupling.Coupled.inFrame hrun (fun _ _ _ => trivial) (fun _ _ hhosts => hhosts)
    (fun _ _ hhosts => hhosts) fun _ _ => trivial

end Console

namespace Script

/-- What can be seen of a run: how it stops, and what has been written by then. -/
def seen {σ : Type} (output : σ → String) :
    EStateM.Result (Halt Error) σ Outcome → Except (Halt Error) Outcome × String
  | .ok outcome after => (.ok outcome, output after)
  | .error halt after => (.error halt, output after)

/-- **A program cannot tell a console from a host in memory.**  Whatever line ends the stream has, a
run against a console stops in the same way as one against a host in memory with the lines of the
stream, with the same outcome or failure, and it has written the same. -/
theorem console_seen_as_memory (program : Node) (fuel : Nat) (output text : String)
    (lines : List String) (hlines : Console.LinesOf text lines) :
    seen Console.output (runTree fuel program ⟨output, Console.bytes text⟩) =
      seen MemoryHost.output (runTree fuel program ⟨output, lines, none⟩) := by
  have hempty : ({} : Frame).AllFunctions Console.sameLines.functions := Frame.allFunctions_empty
  have hhosts : Console.sameLines.hosts ⟨output, Console.bytes text⟩ ⟨output, lines, none⟩ :=
    ⟨rfl, text, hlines, rfl⟩
  obtain ⟨stop, after, console, memory, -, ⟨-, rest, -, rfl⟩, -, hconsole, hmemory⟩ :=
    Console.eval_sameLines fuel program hempty hhosts
  unfold runTree Node.runFresh
  rw [hconsole, hmemory]
  cases stop <;> rfl

/-- A program that reads three lines, writes them, and asks for one more. -/
def asksFourTimes : Node :=
  .program [.call "print" [.call "input" [], .call "input" [], .call "input" []], .call "input" []]

/-- A stream with all kinds of line ends.  One of its lines ends with a carriage return of its own,
and one is empty.  At a console the program reads three lines and then fails, as it does with the
three lines in memory. -/
theorem asksFourTimes_seen_as_memory :
    Console.LinesOf "a\r\r\n\né" ["a\r", "", "é"] ∧
      seen Console.output (runTree 5 asksFourTimes ⟨"", Console.bytes "a\r\r\n\né"⟩) =
        (.error (.failed (.eval (.host .endOfInput))), "a\r  é\n") := by
  have hlast : Console.LinesOf "é" ["é"] := .unended (by decide) (by decide)
  have hempty : Console.LinesOf ("" ++ "\n" ++ "é") ["", "é"] :=
    .newline (by decide) (by decide) hlast
  have hlines : Console.LinesOf ("a\r" ++ "\r\n" ++ "\né") ["a\r", "", "é"] :=
    .returnNewline (by decide) hempty
  have hmemory : seen MemoryHost.output (runTree 5 asksFourTimes ⟨"", ["a\r", "", "é"], none⟩) =
      (.error (.failed (.eval (.host .endOfInput))), "a\r  é\n") := rfl
  exact ⟨hlines, (console_seen_as_memory asksFourTimes 5 "" _ _ hlines).trans hmemory⟩

end Script

end FlatScript
