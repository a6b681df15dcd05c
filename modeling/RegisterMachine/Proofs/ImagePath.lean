import RegisterMachine.Proofs.BuiltImage
import RegisterMachine.Proofs.Words

/-!
# Where an image is written

The image of a file belongs beside it: in the same directory, under the same name but for the
extension. A path ends its directory with its last slash, and a name begins its extension with its
last dot (`Files.Split`). The path of an image is made with an eye to dots alone, so a dot in the
directory is taken for the beginning of an extension if the name has none. Then the image goes astray
(`Command.Stray`), to a place that does not depend on the name at all.

All other images are beside their files, and two of them are one file only if their files are in one
directory and are called the same but for the extension.
-/

namespace RegisterMachine

namespace Files

/-! ## Paths and their parts -/

/-- What can stand for a directory in front of a name. -/
def IsDirectory (dir : String) : Prop := dir = "" ∨ ∃ up, dir = up ++ "/"

/-- A name ends with an extension, which begins at its last dot. -/
def Extends (stem ext : String) : Prop :=
  ext = "" ∧ '.' ∉ stem.toList ∨ ∃ kind, ext = "." ++ kind ∧ '.' ∉ kind.toList

/-- A path is taken apart into its directory and, behind the last slash, the stem and the extension
of its name. -/
structure Split (path dir stem ext : String) : Prop where
  text : path = dir ++ stem ++ ext
  directory : IsDirectory dir
  name : '/' ∉ (stem ++ ext).toList
  extension : Extends stem ext

variable {c : Char} {cs before before' behind behind' : List Char}
  {path dir dir' name name' stem stem' ext ext' : String}

/-- A text that has a character is cut where it has it last. -/
theorem exists_last (h : c ∈ cs) : ∃ before behind, cs = before ++ c :: behind ∧ c ∉ behind := by
  obtain ⟨as, bs, hcs, hfirst⟩ := List.eq_append_cons_of_mem (List.mem_reverse.mpr h)
  refine ⟨bs.reverse, as.reverse, ?_, by simpa using hfirst⟩
  rw [← List.reverse_inj, hcs]
  simp

theorem ne_of_mem_reverse (h : c ∉ cs) : ∀ d ∈ cs.reverse, decide (d ≠ c) = true := by
  intro d hd
  exact decide_eq_true fun hdc => h (hdc ▸ List.mem_reverse.mp hd)

/-- There is only one place where it is last. -/
theorem last_inj (h : c ∉ behind) (h' : c ∉ behind')
    (heq : before ++ c :: behind = before' ++ c :: behind') :
    before = before' ∧ behind = behind' := by
  -- from the end, both texts are read up to the first `c`
  have hstop : ∀ as {bs : List Char}, c ∉ bs →
      (as ++ c :: bs).reverse.takeWhile (· ≠ c) = bs.reverse := by
    intro as bs hbs
    rw [List.reverse_append, List.reverse_cons, List.append_assoc]
    exact Token.takeWhile_append_of_stops (ne_of_mem_reverse hbs) (by simp)
  have hbehind : behind = behind' := by
    rw [← List.reverse_inj, ← hstop before h, heq, hstop before' h']
  subst hbehind
  exact ⟨List.append_cancel_right heq, rfl⟩

theorem exists_directory (path : String) :
    ∃ dir name, path = dir ++ name ∧ IsDirectory dir ∧ '/' ∉ name.toList := by
  by_cases h : '/' ∈ path.toList
  · obtain ⟨up, name, htext, hname⟩ := exists_last h
    refine ⟨.ofList up ++ "/", .ofList name, ?_, Or.inr ⟨_, rfl⟩, by simpa using hname⟩
    rw [← String.toList_inj, htext]
    simp
  · exact ⟨"", path, by simp, Or.inl rfl, h⟩

theorem directory_inj (hdir : IsDirectory dir) (hdir' : IsDirectory dir') (h : '/' ∉ name.toList)
    (h' : '/' ∉ name'.toList) (heq : dir ++ name = dir' ++ name') : dir = dir' ∧ name = name' := by
  rw [← String.toList_inj, String.toList_append, String.toList_append] at heq
  rcases hdir with rfl | ⟨up, rfl⟩
  · rcases hdir' with rfl | ⟨up', rfl⟩
    · exact ⟨rfl, String.toList_inj.mp (by simpa using heq)⟩
    · have hname : name.toList = up'.toList ++ '/' :: name'.toList := by simpa using heq
      exact absurd (by simp [hname]) h
  · rcases hdir' with rfl | ⟨up', rfl⟩
    · have hname : up.toList ++ '/' :: name.toList = name'.toList := by simpa using heq
      exact absurd (by simp [← hname]) h'
    · have hlast : up.toList ++ '/' :: name.toList = up'.toList ++ '/' :: name'.toList := by
        simpa using heq
      obtain ⟨hup, hname⟩ := last_inj h h' hlast
      exact ⟨congrArg (· ++ "/") (String.toList_inj.mp hup), String.toList_inj.mp hname⟩

theorem exists_extension (name : String) : ∃ stem ext, name = stem ++ ext ∧ Extends stem ext := by
  by_cases h : '.' ∈ name.toList
  · obtain ⟨stem, kind, htext, hkind⟩ := exists_last h
    refine ⟨.ofList stem, "." ++ .ofList kind, ?_, Or.inr ⟨_, rfl, by simpa using hkind⟩⟩
    rw [← String.toList_inj, htext]
    simp
  · exact ⟨name, "", by simp, Or.inl ⟨rfl, h⟩⟩

theorem extension_inj (h : Extends stem ext) (h' : Extends stem' ext')
    (heq : stem ++ ext = stem' ++ ext') : stem = stem' ∧ ext = ext' := by
  rw [← String.toList_inj, String.toList_append, String.toList_append] at heq
  rcases h with ⟨rfl, h⟩ | ⟨kind, rfl, h⟩
  · rcases h' with ⟨rfl, h'⟩ | ⟨kind', rfl, h'⟩
    · exact ⟨String.toList_inj.mp (by simpa using heq), rfl⟩
    · have hstem : stem.toList = stem'.toList ++ '.' :: kind'.toList := by simpa using heq
      exact absurd (by simp [hstem]) h
  · rcases h' with ⟨rfl, h'⟩ | ⟨kind', rfl, h'⟩
    · have hstem : stem.toList ++ '.' :: kind.toList = stem'.toList := by simpa using heq
      exact absurd (by simp [← hstem]) h'
    · have hlast : stem.toList ++ '.' :: kind.toList = stem'.toList ++ '.' :: kind'.toList := by
        simpa using heq
      obtain ⟨hstem, hkind⟩ := last_inj h h' hlast
      exact ⟨String.toList_inj.mp hstem, congrArg ("." ++ ·) (String.toList_inj.mp hkind)⟩

/-- Every path can be taken apart. -/
theorem exists_split (path : String) : ∃ dir stem ext, Split path dir stem ext := by
  obtain ⟨dir, name, rfl, hdir, hname⟩ := exists_directory path
  obtain ⟨stem, ext, rfl, hext⟩ := exists_extension name
  exact ⟨dir, stem, ext, String.append_assoc.symm, hdir, hname, hext⟩

/-- **A path has one directory, one stem and one extension.** -/
theorem Split.unique (h : Split path dir stem ext) (h' : Split path dir' stem' ext') :
    dir = dir' ∧ stem = stem' ∧ ext = ext' := by
  have htext := h.text.symm.trans h'.text
  rw [String.append_assoc, String.append_assoc] at htext
  obtain ⟨hdir, hname⟩ := directory_inj h.directory h'.directory h.name h'.name htext
  exact ⟨hdir, extension_inj h.extension h'.extension hname⟩

/-! ## Where paths lead -/

theorem parts_ne_nil (cs : List Char) : parts cs ≠ [] := by
  cases cs with
  | nil => simp [parts]
  | cons c cs =>
      unfold parts
      split
      · simp
      · split
        · simp
        · simp

theorem parts_append_slash (as bs : List Char) : parts (as ++ '/' :: bs) = parts as ++ parts bs := by
  induction as with
  | nil => rfl
  | cons c cs ih =>
      by_cases hc : c = '/'
      · simp [parts, hc, ih]
      · cases hparts : parts cs with
        | nil => exact absurd hparts (parts_ne_nil cs)
        | cons p ps => simp [parts, hc, ih, hparts]

theorem parts_of_no_slash (h : '/' ∉ cs) : parts cs = [cs] := by
  induction cs with
  | nil => rfl
  | cons c cs ih =>
      rw [List.mem_cons, not_or] at h
      simp [parts, Ne.symm h.1, ih h.2]

/-- **A name leads one step further than its directory.** -/
theorem location_append (hdir : IsDirectory dir) (hslash : '/' ∉ name.toList) (hne : name ≠ "")
    (hdot : name ≠ ".") : location (dir ++ name) = location dir ++ [name] := by
  rcases hdir with rfl | ⟨up, rfl⟩
  · have hhead : name.toList.head? ≠ some '/' := fun h => hslash (List.mem_of_mem_head? h)
    simp [location, parts_of_no_slash hslash, hhead, hne, hdot, parts]
  · have hname : (up ++ "/" ++ name).toList = up.toList ++ '/' :: name.toList := by simp
    have hup : (up ++ "/").toList = up.toList ++ '/' :: [] := by simp
    have hhead : ∀ cs, (up.toList ++ '/' :: cs).head? = some (up.toList.head?.getD '/') := by
      intro cs
      rw [List.head?_append]
      cases up.toList.head? <;> rfl
    unfold location
    -- behind the slash the directory has an empty part, which leads nowhere
    rw [hname, hup, hhead, hhead, parts_append_slash, parts_append_slash, parts_of_no_slash hslash]
    split <;> simp [parts, hne, hdot]

end Files

namespace Command

open Files (Split location)

variable {paint : Paint} {files : Files} {file file' up down dir dir' stem stem' ext ext' : String}
  {d : Description} {m : Machine} {image : Bytes}

/-! ## Beside and astray -/

/-- A path of an image that is in the directory of a file and is called as the file but for the
extension. -/
def Beside (file out : String) : Prop :=
  ∃ dir stem ext, Split file dir stem ext ∧ out = dir ++ stem ++ ".rmc"

/-- There is a dot in the directory of a path, and none in the name. -/
def Stray (file : String) : Prop := ∃ dir stem, Split file dir stem "" ∧ '.' ∈ dir.toList

theorem imagePath_of_dot (h : '.' ∉ down.toList) : imagePath (up ++ "." ++ down) = up ++ ".rmc" := by
  have htext : (up ++ "." ++ down).toList.reverse
      = down.toList.reverse ++ '.' :: up.toList.reverse := by
    simp
  unfold imagePath
  rw [htext, Token.dropWhile_append_of_stops (Files.ne_of_mem_reverse h) (by simp)]
  simp

theorem imagePath_of_no_dot (h : '.' ∉ file.toList) : imagePath file = file ++ ".rmc" := by
  have hnone : file.toList.reverse.dropWhile (· ≠ '.') = [] :=
    List.dropWhile_eq_nil_iff.mpr (Files.ne_of_mem_reverse h)
  unfold imagePath
  rw [hnone]
  simp

/-- **An image is written beside its file**, unless it goes astray. -/
theorem imagePath_of_not_stray (h : Split file dir stem ext) (hstray : ¬ Stray file) :
    imagePath file = dir ++ stem ++ ".rmc" := by
  obtain rfl := h.text
  rcases h.extension with ⟨rfl, hstem⟩ | ⟨kind, rfl, hkind⟩
  · have hdir : '.' ∉ dir.toList := fun hdot => hstray ⟨dir, stem, h, hdot⟩
    rw [imagePath_of_no_dot (by simp [hdir, hstem])]
    simp
  · rw [← String.append_assoc, imagePath_of_dot hkind]

/-- **Where an image goes astray** there is nothing left of the name. -/
theorem imagePath_of_stray (h : Split file (up ++ "." ++ down) stem "") (hdown : '.' ∉ down.toList) :
    imagePath file = up ++ ".rmc" := by
  have hstem : '.' ∉ stem.toList := by
    rcases h.extension with ⟨_, hstem⟩ | ⟨kind, hkind, _⟩
    · exact hstem
    · exact absurd (congrArg String.toList hkind) (by simp)
  have htext : file = up ++ "." ++ (down ++ stem) := by
    rw [h.text]
    simp [String.append_assoc]
  rw [htext, imagePath_of_dot (by simp [hdown, hstem])]

theorem Stray.exists_split (h : Stray file) :
    ∃ up down stem, Split file (up ++ "." ++ down) stem "" ∧ '.' ∉ down.toList := by
  obtain ⟨dir, stem, hsplit, hdot⟩ := h
  obtain ⟨up, down, hdir, hdown⟩ := Files.exists_last hdot
  refine ⟨.ofList up, .ofList down, stem, ?_, by simpa using hdown⟩
  have htext : dir = .ofList up ++ "." ++ .ofList down := by
    rw [← String.toList_inj, hdir]
    simp
  exact htext ▸ hsplit

theorem beside_imagePath_iff : Beside file (imagePath file) ↔ ¬ Stray file := by
  constructor
  · intro h hstray
    obtain ⟨up, down, stem, hsplit, hdown⟩ := hstray.exists_split
    obtain ⟨dir', stem', ext', hsplit', hpath⟩ := h
    obtain ⟨rfl, rfl, rfl⟩ := hsplit.unique hsplit'
    rw [imagePath_of_stray hsplit hdown] at hpath
    -- an image that is astray has a shorter path than one beside the file
    have hlength := congrArg String.length hpath
    simp only [String.length_append] at hlength
    have hdot : (".").length = 1 := rfl
    omega
  · intro h
    obtain ⟨dir, stem, ext, hsplit⟩ := Files.exists_split file
    exact ⟨dir, stem, ext, hsplit, imagePath_of_not_stray hsplit h⟩

/-! ## Two images -/

theorem split_image (h : Split file dir stem ext) :
    Split (dir ++ stem ++ ".rmc") dir stem ".rmc" where
  text := rfl
  directory := h.directory
  name := by
    have hname := h.name
    rw [String.toList_append, List.mem_append, not_or] at hname ⊢
    exact ⟨hname.1, by decide⟩
  extension := Or.inr ⟨"rmc", rfl, by decide⟩

theorem image_inj (h : Split file dir stem ext) (h' : Split file' dir' stem' ext') :
    dir' ++ stem' ++ ".rmc" = dir ++ stem ++ ".rmc" ↔ dir' = dir ∧ stem' = stem := by
  constructor
  · intro heq
    obtain ⟨hdir, hstem, _⟩ := (heq ▸ split_image h').unique (split_image h)
    exact ⟨hdir, hstem⟩
  · rintro ⟨rfl, rfl⟩
    rfl

theorem location_image (h : Split file dir stem ext) :
    location (dir ++ stem ++ ".rmc") = location dir ++ [stem ++ ".rmc"] := by
  have hlength : 4 ≤ (stem ++ ".rmc").length := by
    rw [String.length_append]
    exact Nat.le_add_left _ _
  rw [String.append_assoc]
  refine Files.location_append h.directory (split_image h).name ?_ ?_
  · intro hname
    rw [hname] at hlength
    exact absurd hlength (by decide)
  · intro hname
    rw [hname] at hlength
    exact absurd hlength (by decide)

theorem location_image_inj (h : Split file dir stem ext) (h' : Split file' dir' stem' ext') :
    location (dir' ++ stem' ++ ".rmc") = location (dir ++ stem ++ ".rmc")
      ↔ location dir' = location dir ∧ stem' = stem := by
  rw [location_image h, location_image h']
  constructor
  · intro heq
    obtain ⟨hdir, hname⟩ := List.append_inj' heq rfl
    exact ⟨hdir, (String.append_left_inj _).mp (List.singleton_inj.mp hname)⟩
  · rintro ⟨hdir, rfl⟩
    rw [hdir]

/-! ## What building writes -/

/-- **A file that makes a machine is built**, if it is not too long. -/
theorem buildReport_of_assemble (paint : Paint) (hload : load files file = .ok d)
    (hm : assemble d .default = .ok m)
    (hlen : ∀ bytes, files.read file = some bytes → bytes.length < 2 ^ 64) :
    ∃ image, Image.encode d = .ok image
      ∧ (buildReport paint files file).result = .ok ()
      ∧ (buildReport paint files file).written = some (imagePath file, image) := by
  rcases buildReport_cases paint files file with ⟨e, he⟩ | ⟨d', image, hload', himage, hok, hwritten⟩
  · have hchecked : (buildReport paint files file).result = (checkReport paint files file).result :=
      result_buildReport hlen
    unfold checkReport at hchecked
    rw [he, hload] at hchecked
    simp only [bind, Except.bind, hm] at hchecked
    exact absurd hchecked (by simp [Report.failed])
  · obtain rfl := Except.ok.inj (hload'.symm.trans hload)
    exact ⟨image, himage, hok, hwritten⟩

end Command

namespace Session

open Command
open Files (Split location)

variable {paint : Paint} {files : Files} {file out : String} {rest : List String} {d : Description}
  {m : Machine} {image : Bytes}

/-- A session has come to its end and has written a file. -/
def Writes (s : Session) (path : String) (bytes : Bytes) : Prop :=
  ∃ r, s = .closed r ∧ r.written = some (path, bytes)

/-- Whatever is built is written at the image path. -/
theorem eq_imagePath_of_writes (h : (start paint files ("build" :: file :: rest)).Writes out image) :
    out = imagePath file := by
  obtain ⟨r, hr, hwritten⟩ := h
  obtain rfl : buildReport paint files file = r := Session.closed.inj hr
  rcases buildReport_cases paint files file with ⟨e, he⟩ | ⟨_, _, _, _, _, hwritten'⟩
  · rw [he] at hwritten
    exact absurd hwritten (by simp [Report.failed])
  · exact (Prod.mk.inj (Option.some.inj (hwritten.symm.trans hwritten'))).1

/--
**An image is written beside its file, unless there is a dot in the directory and none in the name.**

A file of fewer than `2 ^ 64` bytes that is loaded and makes a machine is built, and its image is
written in its directory, under its name with `.rmc` in place of the extension or, if there is none,
behind it; and this exactly if the path does not lead astray. A path that does loses all from the last
dot of its directory on, its name included.

Two files that do not lead astray have images with one path exactly if the texts of their directories
are the same and their names differ in the extension at most, and have one and the same image exactly
if their directories lead to one place and their names differ in the extension at most.
-/
theorem build_beside_iff (paint : Paint) (hload : load files file = .ok d)
    (hm : assemble d .default = .ok m)
    (hlen : ∀ bytes, files.read file = some bytes → bytes.length < 2 ^ 64) (rest : List String) :
    ∃ out image, (start paint files ("build" :: file :: rest)).Writes out image
      ∧ Image.encode d = .ok image
      ∧ (Beside file out ↔ ¬ Stray file)
      ∧ (∀ up down stem, Split file (up ++ "." ++ down) stem "" → '.' ∉ down.toList →
          out = up ++ ".rmc")
      ∧ ∀ paint' files' file' rest' out' image',
          (start paint' files' ("build" :: file' :: rest')).Writes out' image' →
          ¬ Stray file → ¬ Stray file' →
          ∀ dir stem ext dir' stem' ext', Split file dir stem ext → Split file' dir' stem' ext' →
            (out' = out ↔ dir' = dir ∧ stem' = stem)
              ∧ (location out' = location out ↔ location dir' = location dir ∧ stem' = stem) := by
  obtain ⟨image, himage, _, hwritten⟩ := buildReport_of_assemble paint hload hm hlen
  refine ⟨imagePath file, image, ⟨_, rfl, hwritten⟩, himage, beside_imagePath_iff, ?_, ?_⟩
  · intro up down stem hsplit hdown
    exact imagePath_of_stray hsplit hdown
  · intro paint' files' file' rest' out' image' hwrites hstray hstray' dir stem ext dir' stem' ext'
      hsplit hsplit'
    rw [eq_imagePath_of_writes hwrites, imagePath_of_not_stray hsplit hstray,
      imagePath_of_not_stray hsplit' hstray']
    exact ⟨image_inj hsplit hsplit', location_image_inj hsplit hsplit'⟩

/-- Files of one text, some of which have names without an extension. -/
def shelves : Files :=
  let text := Utf8.encode "(machine (registers) (controller))"
  (((Files.empty.write "a.d/p.rm" text).write "b/p" text).write "p" text).write "q" text

/-- What is needed for a file to be built can be computed. -/
theorem exists_assemble (files : Files) (file : String)
    (h : ((load files file).toOption.bind fun d => (assemble d .default).toOption).isSome = true) :
    ∃ d m, load files file = .ok d ∧ assemble d .default = .ok m := by
  obtain ⟨m, hm⟩ := Option.isSome_iff_exists.mp h
  obtain ⟨d, hd, hm⟩ := Option.bind_eq_some_iff.mp hm
  exact ⟨d, m, ok_of_toOption hd, ok_of_toOption hm⟩

theorem length_lt_shelves (h : (shelves.read file).all (·.length < 2 ^ 64) = true) :
    ∀ bytes, shelves.read file = some bytes → bytes.length < 2 ^ 64 := by
  intro bytes hbytes
  rw [hbytes] at h
  exact of_decide_eq_true h

/-- A dot in a directory does no harm to a name with an extension. -/
theorem build_beside_iff_shelves :
    ∃ d m d' m', load shelves "a.d/p.rm" = .ok d ∧ assemble d .default = .ok m
      ∧ load shelves "b/p" = .ok d' ∧ assemble d' .default = .ok m'
      ∧ ∃ image image', (start .plain shelves ["build", "a.d/p.rm"]).Writes "a.d/p.rmc" image
        ∧ Beside "a.d/p.rm" "a.d/p.rmc"
        ∧ (start .plain shelves ["build", "b/p"]).Writes "b/p.rmc" image'
        ∧ location "b/p.rmc" ≠ location "a.d/p.rmc" := by
  obtain ⟨d, m, hload, hm⟩ := exists_assemble shelves "a.d/p.rm" (by decide +kernel)
  obtain ⟨d', m', hload', hm'⟩ := exists_assemble shelves "b/p" (by decide +kernel)
  have hsplit : Split "a.d/p.rm" "a.d/" "p" ".rm" :=
    ⟨by decide, Or.inr ⟨"a.d", by decide⟩, by decide, Or.inr ⟨"rm", by decide⟩⟩
  have hsplit' : Split "b/p" "b/" "p" "" :=
    ⟨by decide, Or.inr ⟨"b", by decide⟩, by decide, Or.inl (by decide)⟩
  have hstray : ¬ Stray "a.d/p.rm" := by
    intro h
    obtain ⟨_, _, h, _⟩ := h
    exact absurd (hsplit.unique h).2.2 (by decide)
  have hstray' : ¬ Stray "b/p" := by
    intro h
    obtain ⟨_, _, h, hdot⟩ := h
    rw [← (hsplit'.unique h).1] at hdot
    exact absurd hdot (by decide)
  obtain ⟨out, image, hwrites, _, hbeside, _, htwo⟩ := build_beside_iff .plain hload hm
    (length_lt_shelves (by decide +kernel)) []
  obtain ⟨out', image', hwrites', _, _⟩ := build_beside_iff .plain hload' hm'
    (length_lt_shelves (by decide +kernel)) []
  have hapart := (htwo _ _ _ _ _ _ hwrites' hstray hstray' _ _ _ _ _ _ hsplit hsplit').2
  obtain rfl := eq_imagePath_of_writes hwrites
  obtain rfl := eq_imagePath_of_writes hwrites'
  refine ⟨d, m, d', m', hload, hm, hload', hm', image, image', hwrites, hbeside.mpr hstray,
    hwrites', ?_⟩
  intro h
  exact absurd (hapart.mp h).1 (by decide)

/-- **A dot in the directory leads astray** if there is none in the name: the image is not beside its
file, and another file of the same directory has its image in the same place. -/
theorem build_astray_dot :
    ∃ image, (start .plain shelves ["build", "./p"]).Writes ".rmc" image ∧ ¬ Beside "./p" ".rmc"
      ∧ (start .plain shelves ["build", "./q"]).Writes ".rmc" image := by
  have hsplit : Split "./p" "./" "p" "" :=
    ⟨by decide, Or.inr ⟨".", by decide⟩, by decide, Or.inl (by decide)⟩
  have hstray : Stray "./p" := ⟨"./", "p", hsplit, by decide⟩
  have hpath : (buildReport .plain shelves "./p").written.map Prod.fst = some ".rmc" := by
    decide +kernel
  have hsame : (buildReport .plain shelves "./q").written
      = (buildReport .plain shelves "./p").written := by
    decide +kernel
  obtain ⟨⟨path, image⟩, hwritten, rfl⟩ := Option.map_eq_some_iff.mp hpath
  refine ⟨image, ⟨_, rfl, hwritten⟩, ?_, ⟨_, rfl, hsame.trans hwritten⟩⟩
  intro h
  exact beside_imagePath_iff.mp h hstray

end Session

end RegisterMachine
