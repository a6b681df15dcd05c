import RegisterMachine.Command.Session
import RegisterMachine.Proofs.Capacity
import RegisterMachine.Proofs.Success

/-!
# An image in place of its source

An image is built to be used in place of the file that it was built from. Three things have to come
together for that. A source is not taken for an image: an image begins with a letter, and no text
that does is read as a description. What was written is what is loaded again. And no command does
anything with a file but load it, so that files with the same description in them are the same to
all commands (`Session.start_run_congr`, `Session.start_check_congr`).

The last step of building is the only one that writes, so a file is written whole or not at all.
-/

namespace RegisterMachine

/-! ## Files -/

/-- **A file that is written is the only one to change.** -/
theorem Files.read_write (files : Files) (path other : String) (bytes : Bytes) :
    (files.write path bytes).read other =
      if location other = location path then some bytes else files.read other := by
  unfold read write
  rw [List.find?_append]
  by_cases h : location other = location path
  · have hnone : (files.entries.filter (·.1 ≠ location path)).find? (·.1 = location other) = none := by
      rw [List.find?_eq_none]
      intro e he
      have hne := (List.mem_filter.mp he).2
      simpa [h] using hne
    rw [if_pos h, hnone]
    simp [h]
  · have hsame : (files.entries.filter (·.1 ≠ location path)).find? (·.1 = location other)
        = files.entries.find? (·.1 = location other) := by
      rw [List.find?_filter]
      congr 1
      funext e
      by_cases he : e.1 = location other
      · simp [he, h]
      · simp [he]
    rw [if_neg h, hsame]
    simp [Ne.symm h]

/-! ## Sources and images -/

theorem Utf8.encode_eq_flatMap (s : String) :
    encode s = s.toList.flatMap String.utf8EncodeChar := by
  unfold encode
  conv_lhs => rw [← String.ofList_toList (s := s)]
  rw [String.toUTF8, String.toByteArray_ofList, List.utf8Encode]
  simp

/-- One character alone begins with the byte that images begin with. -/
theorem Utf8.eq_of_head?_utf8EncodeChar {c : Char} {bs : Bytes}
    (h : (String.utf8EncodeChar c ++ bs).head? = some 82) : c = 'R' := by
  have hbyte : ∀ {n : Nat}, some (UInt8.ofNat n) = some (82 : UInt8) → n % 256 = 82 := by
    intro n hn
    have hnat := congrArg UInt8.toNat (Option.some.inj hn)
    rwa [UInt8.toNat_ofNat'] at hnat
  unfold String.utf8EncodeChar at h
  dsimp only at h
  repeat' split at h
  case isTrue hascii =>
    have hmod := hbyte h
    have hcode : c.val.toNat = 82 := by omega
    exact Char.toNat_inj.mp hcode
  -- the first byte of a longer sequence is greater
  all_goals
    have hmod := hbyte h
    omega

/-- **No description is read from a text that begins like an image.** -/
theorem Image.isImage_of_source {source : String} {d : Description}
    (h : Description.ofSource source = .ok d) : isImage (Utf8.encode source) = false := by
  rw [Bool.eq_false_iff]
  intro himage
  obtain ⟨rest, hbytes⟩ := List.isPrefixOf_iff_prefix.mp himage
  have hmark : mark.head? = some 82 := by decide
  have hhead : (Utf8.encode source).head? = some 82 := by
    rw [← hbytes, List.head?_append, hmark]
    rfl
  obtain ⟨m, _, hwords⟩ := Derivation.ofSource_eq_ok.mp h
  rw [Utf8.encode_eq_flatMap] at hhead
  rw [Token.map_word_scan] at hwords
  cases hsource : source.toList with
  | nil =>
      rw [hsource] at hhead
      exact absurd hhead (by simp)
  | cons c cs =>
      rw [hsource, List.flatMap_cons] at hhead
      rw [hsource, Utf8.eq_of_head?_utf8EncodeChar hhead, Token.words_cons,
        Token.firstPiece_of_isAtomic (by decide)] at hwords
      -- the first word would be an atom, and a description begins with a parenthesis
      have hkind := congrArg (Option.map Word.kind) (congrArg List.head? hwords)
      exact absurd hkind (by simp [Token.Piece.word?, Derivation.Machine.words, Derivation.listing,
        Word.opening])

/-- What is read as an image is told from source text. -/
theorem Image.isImage_of_decode {bs : Bytes} {d : Description} (h : decode bs = .ok d) :
    isImage bs = true := by
  obtain ⟨image, himage, hprefix⟩ := decode_eq_ok_iff.mp h
  obtain ⟨_, rfl⟩ := encode_eq_ok.mp himage
  refine List.isPrefixOf_iff_prefix.mpr (List.IsPrefix.trans ?_ hprefix)
  unfold header declaration
  rw [List.append_assoc, List.append_assoc]
  exact List.prefix_append _ _

namespace Command

variable {files files' : Files} {file file' : String} {d : Description} {paint : Paint}
  {bytes : Bytes}

/-! ## Loading -/

/-- **An image or a source text is loaded as what it is.** -/
theorem load_eq_ok_iff (hread : files.read file = some bytes) :
    load files file = .ok d ↔ Image.decode bytes = .ok d
      ∨ ∃ source, Utf8.decode bytes = .ok source ∧ Description.ofSource source = .ok d := by
  unfold load
  rw [hread]
  dsimp only
  by_cases himage : Image.isImage bytes = true
  · rw [if_pos himage, mapError_eq_ok]
    refine ⟨Or.inl, ?_⟩
    intro h
    rcases h with himg | ⟨source, hdecode, hsource⟩
    · exact himg
    · rw [Utf8.eq_encode_of_decode hdecode, Image.isImage_of_source hsource] at himage
      exact absurd himage (by simp)
  · rw [if_neg himage, bind_eq_ok]
    simp only [mapError_eq_ok]
    refine ⟨Or.inr, ?_⟩
    intro h
    rcases h with himg | hsource
    · exact absurd (Image.isImage_of_decode himg) himage
    · exact hsource

theorem exists_bytes_of_load (h : load files file = .ok d) : ∃ bytes, files.read file = some bytes := by
  unfold load at h
  cases hread : files.read file with
  | none => rw [hread] at h; exact absurd h (by simp)
  | some bytes => exact ⟨bytes, rfl⟩

/-- **What is loaded from a file fits an image**, if the file is not too long. -/
theorem fits_of_load (h : load files file = .ok d)
    (hlen : ∀ bytes, files.read file = some bytes → bytes.length < 2 ^ 64) : Image.fits d = true := by
  obtain ⟨bytes, hread⟩ := exists_bytes_of_load h
  rcases (load_eq_ok_iff hread).mp h with himage | ⟨source, hdecode, hsource⟩
  · obtain ⟨image, hencode, _⟩ := Image.decode_eq_ok_iff.mp himage
    exact (Image.encode_eq_ok.mp hencode).1
  · refine Image.fits_iff.mpr ?_
    intro n hn
    have hle : n ≤ bytes.length := by
      rw [Utf8.eq_encode_of_decode hdecode]
      exact Description.sizes_le_of_source hsource n hn
    exact hle.trans_lt (hlen bytes hread)

/-! ## Building and checking -/

/-- **Building fails and writes nothing, or writes the image of what was loaded.** -/
theorem buildReport_cases (paint : Paint) (files : Files) (file : String) :
    (∃ e, buildReport paint files file = .failed e)
      ∨ ∃ d image, load files file = .ok d ∧ Image.encode d = .ok image
          ∧ (buildReport paint files file).result = .ok ()
          ∧ (buildReport paint files file).written = some (imagePath file, image) := by
  unfold buildReport
  dsimp only
  generalize himage : (load files file >>= fun d => assemble d .default >>= fun _ =>
    (Image.encode d).mapError (.failure ∘ .image)) = image
  cases image with
  | error e => exact Or.inl ⟨e, rfl⟩
  | ok image =>
      obtain ⟨d, hload, himage⟩ := bind_eq_ok.mp himage
      obtain ⟨_, _, himage⟩ := bind_eq_ok.mp himage
      exact Or.inr ⟨d, image, hload, mapError_eq_ok.mp himage, rfl, rfl⟩

/-- **Building and checking come to the same result**, if the file is not too long. -/
theorem result_buildReport (hlen : ∀ bytes, files.read file = some bytes → bytes.length < 2 ^ 64) :
    (buildReport paint files file).result = (checkReport paint files file).result := by
  unfold buildReport checkReport
  dsimp only
  cases hload : load files file with
  | error e => rfl
  | ok d =>
      have himage : Image.encode d = .ok (Image.header ++ Image.payload d) :=
        Image.encode_eq_ok.mpr ⟨fits_of_load hload hlen, rfl⟩
      simp only [bind, Except.bind, himage]
      cases assemble d .default with
      | error e => rfl
      | ok m => rfl

/-- Where an image was written, what it is the image of is loaded. -/
theorem load_written {r : Report} {image : Bytes} (h : Image.encode d = .ok image)
    (hw : r.written = some (file, image)) : load (r.filesAfter files) file = .ok d := by
  have hread : (r.filesAfter files).read file = some image := by
    unfold Report.filesAfter
    rw [hw]
    exact (Files.read_write files file file image).trans (if_pos rfl)
  exact (load_eq_ok_iff hread).mpr (Or.inl (Image.decode_eq_ok_iff.mpr ⟨image, h, List.prefix_rfl⟩))

end Command

/-! ## What commands do with a file -/

namespace Session

open Command

variable {paint : Paint} {files files' : Files} {file file' : String}

/-- **A run is the same for files with the same description in them.** -/
theorem start_run_congr (h : load files' file' = load files file) (options : List String) :
    start paint files' ("run" :: file' :: options) = start paint files ("run" :: file :: options) := by
  have hrun : ∀ file, Command.ofArguments ("run" :: file :: options)
      = (readOptions ⟨.default, false, []⟩ options).map (.run file) := fun _ => rfl
  unfold start
  rw [hrun, hrun]
  cases readOptions ⟨.default, false, []⟩ options with
  | error e => rfl
  | ok o =>
      have hlaunch : launch files' file' o = launch files file o := by
        unfold launch
        rw [h]
      simp only [Except.map, hlaunch]

/-- **A check is the same for files with the same description in them.** -/
theorem start_check_congr (h : load files' file' = load files file) (rest : List String) :
    start paint files' ("check" :: file' :: rest) = start paint files ("check" :: file :: rest) := by
  show closed (checkReport paint files' file') = closed (checkReport paint files file)
  unfold checkReport
  rw [h]

/--
**Building is all or nothing and changes no behaviour.**

A text that is read as a description is not taken for an image, so the description is loaded from a
file with that text. If a file is built, be it source or image, then no file but the one at the image
path is changed, the very same description is loaded from there, and with any options a run or a
check of the image is that of the file before: the same session, hence the same lines as it goes on
and the same end. If a command to build fails, whatever stands behind it, all files are as they were.
And building a file and checking it come to the same result, an error included, for any file of fewer
than `2 ^ 64` bytes.
-/
theorem build_faithful (paint : Paint) (files : Files) :
    (∀ file bytes source d, files.read file = some bytes → Utf8.decode bytes = .ok source →
        Description.ofSource source = .ok d →
        Image.isImage bytes = false ∧ load files file = .ok d)
      ∧ (∀ file rest r, start paint files ("build" :: file :: rest) = .closed r →
          r.result = .ok () →
          (∀ other, Files.location other ≠ Files.location (imagePath file) →
              (r.filesAfter files).read other = files.read other)
            ∧ (∃ d, load files file = .ok d ∧ load (r.filesAfter files) (imagePath file) = .ok d)
            ∧ ∀ paint options,
                start paint (r.filesAfter files) ("run" :: imagePath file :: options)
                    = start paint files ("run" :: file :: options)
                  ∧ start paint (r.filesAfter files) ("check" :: imagePath file :: options)
                    = start paint files ("check" :: file :: options))
      ∧ (∀ arguments, ∃ r, start paint files ("build" :: arguments) = .closed r
          ∧ ∀ e, r.result = .error e → r.filesAfter files = files)
      ∧ ∀ file, (∀ bytes, files.read file = some bytes → bytes.length < 2 ^ 64) →
          ∀ rest rest', ∃ built checked,
            start paint files ("build" :: file :: rest) = .closed built
              ∧ start paint files ("check" :: file :: rest') = .closed checked
              ∧ built.result = checked.result := by
  refine ⟨?_, ?_, ?_, ?_⟩
  · intro file bytes source d hread hdecode hsource
    refine ⟨?_, (load_eq_ok_iff hread).mpr (Or.inr ⟨source, hdecode, hsource⟩)⟩
    rw [Utf8.eq_encode_of_decode hdecode]
    exact Image.isImage_of_source hsource
  · intro file rest r hr hok
    obtain rfl : buildReport paint files file = r := Session.closed.inj hr
    rcases buildReport_cases paint files file with ⟨e, he⟩ | ⟨d, image, hload, himage, _, hwritten⟩
    · rw [he] at hok
      exact absurd hok (by simp [Report.failed])
    · have hloaded : load ((buildReport paint files file).filesAfter files) (imagePath file) = .ok d :=
        load_written himage hwritten
      have hsame := hloaded.trans hload.symm
      refine ⟨?_, ⟨d, hload, hloaded⟩, ?_⟩
      · intro other hother
        unfold Report.filesAfter
        rw [hwritten]
        exact (Files.read_write files _ other image).trans (if_neg hother)
      · intro paint options
        exact ⟨start_run_congr hsame options, start_check_congr hsame options⟩
  · intro arguments
    cases arguments with
    | nil => exact ⟨_, rfl, fun e _ => rfl⟩
    | cons file rest =>
        refine ⟨_, rfl, ?_⟩
        intro e he
        rcases buildReport_cases paint files file with ⟨e', he'⟩ | ⟨_, _, _, _, hok, _⟩
        · rw [he']
          rfl
        · exact absurd (hok.symm.trans he) (by simp)
  · intro file hlen rest rest'
    exact ⟨_, _, rfl, rfl, result_buildReport hlen⟩

/-- A file with a program that counts on a register to be set. -/
def counting : Files :=
  Files.empty.write "count.rm" (Utf8.encode
    "(machine (registers n) (controller again (assign n (op +) (reg n) (const 1)) (goto (label again))))")

theorem build_faithful_counting :
    ∃ r, start .plain counting ["build", "count.rm"] = .closed r ∧ r.result = .ok ()
      ∧ (r.filesAfter counting).read "count.rm" = counting.read "count.rm"
      ∧ start .plain (r.filesAfter counting) ["run", "count.rmc", "--set", "n=1"]
        = start .plain counting ["run", "count.rm", "--set", "n=1"]
      ∧ (∃ checked, start .plain counting ["check", "count.rm"] = .closed checked
          ∧ checked.result = .ok ())
      ∧ ∃ s e, start .plain counting ["build", "missing.rm"] = .closed s ∧ s.result = .error e
          ∧ s.filesAfter counting = counting := by
  obtain ⟨_, hbuild, hfail, hresult⟩ := build_faithful .plain counting
  have hbuilt : (buildReport .plain counting "count.rm").result.toOption = some () := by
    decide +kernel
  have hok := ok_of_toOption hbuilt
  obtain ⟨hkept, _, hsame⟩ := hbuild "count.rm" [] _ rfl hok
  refine ⟨_, rfl, hok, hkept "count.rm" (by decide), (hsame .plain _).1, ?_, ?_⟩
  · have hsize : (counting.read "count.rm").all (·.length < 2 ^ 64) = true := by decide +kernel
    have hlen : ∀ bytes, counting.read "count.rm" = some bytes → bytes.length < 2 ^ 64 := by
      intro bytes hbytes
      rw [hbytes] at hsize
      exact of_decide_eq_true hsize
    obtain ⟨built, checked, hb, hc, hequal⟩ := hresult "count.rm" hlen [] []
    obtain rfl : buildReport .plain counting "count.rm" = built := Session.closed.inj hb
    exact ⟨checked, hc, hequal.symm.trans hok⟩
  · have hmissing : (buildReport .plain counting "missing.rm").result.toOption = none := by
      decide +kernel
    obtain ⟨s, hs, hfiles⟩ := hfail ["missing.rm"]
    obtain rfl : buildReport .plain counting "missing.rm" = s := Session.closed.inj hs
    cases hresult : (buildReport .plain counting "missing.rm").result with
    | ok => rw [hresult] at hmissing; exact absurd hmissing (by simp [Except.toOption])
    | error e => exact ⟨_, e, hs, hresult, hfiles e hresult⟩

end Session

end RegisterMachine
