import FlorenceServer.Api.Validation

/-!
# Image formats and image files

The image functions of `util.rs`, `validate_image_bytes`, and the path under
which `save_uploaded_image` stores an upload.  What the image crate makes of some
bytes is a parameter.

The name of an uploaded image is its id with one of six extensions, whatever the
content type and the bytes are, so it is a direct child of the images directory
and belongs to one id only.
-/

namespace FlorenceServer

/-- `image::ImageFormat`, as far as the code tells its values apart. -/
inductive ImageFormat where
  | png
  | jpeg
  | webP
  | bmp
  | tiff
  /-- any other format, by its debug text -/
  | other (name : String)
deriving DecidableEq, Repr

/-- The image crate, reading from memory. -/
structure ImageCrate where
  guessFormat : List UInt8 → Option ImageFormat
  withGuessedFormat : List UInt8 → Except String Unit
  intoDimensions : List UInt8 → Except String (Nat × Nat)

section Formats

def ImageFormat.debugText : ImageFormat → String
  | .png => "Png"
  | .jpeg => "Jpeg"
  | .webP => "WebP"
  | .bmp => "Bmp"
  | .tiff => "Tiff"
  | .other name => name

/-- `image_format_content_type`. -/
def imageFormatContentType : ImageFormat → Option String
  | .png => some "image/png"
  | .jpeg => some "image/jpeg"
  | .webP => some "image/webp"
  | .bmp => some "image/bmp"
  | .tiff => some "image/tiff"
  | .other _ => none

/-- `image_format_extension`. -/
def imageFormatExtension : ImageFormat → Option String
  | .png => some "png"
  | .jpeg => some "jpg"
  | .webP => some "webp"
  | .bmp => some "bmp"
  | .tiff => some "tiff"
  | .other _ => none

/-- `guess_extension`. -/
def guessExtension (crate : ImageCrate) (contentType : Option String)
    (bytes : List UInt8) : String :=
  match contentType with
  | some "image/png" => "png"
  | some "image/jpeg" => "jpg"
  | some "image/webp" => "webp"
  | some "image/bmp" => "bmp"
  | some "image/tiff" => "tiff"
  | _ => ((crate.guessFormat bytes).bind imageFormatExtension).getD "img"

/-- The extensions that `guess_extension` gives out. -/
def imageExtensions : List String :=
  ["png", "jpg", "webp", "bmp", "tiff", "img"]

theorem imageFormatExtension_mem
    {format : ImageFormat} {extension : String}
    (h : imageFormatExtension format = some extension) :
    extension ∈ imageExtensions := by
  cases format <;> cases h <;> decide

/-- Neither the content type nor the bytes get into the extension. -/
theorem guessExtension_mem
    (crate : ImageCrate) (contentType : Option String) (bytes : List UInt8) :
    guessExtension crate contentType bytes ∈ imageExtensions := by
  unfold guessExtension
  split
  · decide
  · decide
  · decide
  · decide
  · decide
  · cases hformat : (crate.guessFormat bytes).bind imageFormatExtension with
    | none =>
        rw [Option.getD_none]
        decide
    | some extension =>
        obtain ⟨format, -, hextension⟩ := Option.bind_eq_some_iff.mp hformat
        exact imageFormatExtension_mem hextension

/-- An image format with a content type has an extension too. -/
theorem isSome_imageFormatExtension (format : ImageFormat) :
    (imageFormatExtension format).isSome = (imageFormatContentType format).isSome := by
  cases format <;> rfl

end Formats

section Validation

/-- The configured limits of an image. -/
structure ImageLimits where
  maxImageWidth : Nat
  maxImageHeight : Nat
deriving DecidableEq, Repr

/-- `validate_image_bytes`. -/
def validateImageBytes (crate : ImageCrate) (limits : ImageLimits)
    (contentType : Option String) (bytes : List UInt8) : Except ApiError Unit :=
  match contentType with
  | some text =>
      if "image/".toList <+: text.toList then
        checkBytes
      else
        .error (.badRequest ("unsupported content type `" ++ text ++ "`; expected an image"))
  | none => checkBytes
where
  /-- What is behind the test of the content type. -/
  checkBytes : Except ApiError Unit :=
    match crate.guessFormat bytes with
    | none => .error (.badRequest "unsupported or invalid image format")
    | some format =>
        if (imageFormatContentType format).isNone then
          .error (.badRequest ("unsupported image format: " ++ format.debugText))
        else
          match crate.withGuessedFormat bytes with
          | .error err => .error (.badRequest ("failed to identify image format: " ++ err))
          | .ok () =>
              match crate.intoDimensions bytes with
              | .error err => .error (.badRequest ("failed to read image dimensions: " ++ err))
              | .ok (width, height) =>
                  if limits.maxImageWidth < width ∨ limits.maxImageHeight < height then
                    .error (.badRequest ("image dimensions " ++ toString width ++ "x" ++
                      toString height ++ " exceed configured limit " ++
                      toString limits.maxImageWidth ++ "x" ++ toString limits.maxImageHeight))
                  else
                    .ok ()

/-- An image that passes has a format with a content type and fits the limits. -/
theorem validateImageBytes_ok
    {crate : ImageCrate} {limits : ImageLimits} {contentType : Option String}
    {bytes : List UInt8}
    (h : validateImageBytes crate limits contentType bytes = .ok ()) :
    ∃ format width height,
      crate.guessFormat bytes = some format ∧ (imageFormatContentType format).isSome ∧
      crate.intoDimensions bytes = .ok (width, height) ∧
      width ≤ limits.maxImageWidth ∧ height ≤ limits.maxImageHeight := by
  have hcheck : validateImageBytes.checkBytes crate limits bytes = .ok () := by
    unfold validateImageBytes at h
    split at h
    · split at h
      · exact h
      · cases h
    · exact h
  unfold validateImageBytes.checkBytes at hcheck
  cases hformat : crate.guessFormat bytes with
  | none =>
      simp [hformat] at hcheck
  | some format =>
      rw [hformat] at hcheck
      cases hcontent : imageFormatContentType format with
      | none =>
          simp [hcontent] at hcheck
      | some text =>
          cases hreader : crate.withGuessedFormat bytes with
          | error err =>
              simp [hcontent, hreader] at hcheck
          | ok _ =>
              cases hsize : crate.intoDimensions bytes with
              | error err =>
                  simp [hcontent, hreader, hsize] at hcheck
              | ok size =>
                  simp only [hcontent, hreader, hsize, Option.isNone_some, Bool.false_eq_true,
                    if_false] at hcheck
                  split at hcheck
                  · cases hcheck
                  · rename_i hfits
                    exact ⟨format, size.1, size.2, rfl, by simp [hcontent], rfl,
                      by omega, by omega⟩

end Validation

section Paths

/-- Where `save_uploaded_image` puts an image with this extension. -/
def uploadPath (imagesDir : PathBuf) (id : Uuid) (extension : String) : PathBuf :=
  imagesDir ++ [uuidText id ++ "." ++ extension]

/-- The path is one that an upload with this id may write. -/
def IsUploadPath (imagesDir : PathBuf) (id : Uuid) (path : PathBuf) : Prop :=
  ∃ extension ∈ imageExtensions, path = uploadPath imagesDir id extension

/-- One component below the directory. -/
def IsDirectChild (directory path : PathBuf) : Prop :=
  ∃ name, path = directory ++ [name] ∧ name ∉ ["", ".", ".."] ∧ '/' ∉ name.toList

theorem IsUploadPath.isDirectChild
    {imagesDir path : PathBuf} {id : Uuid}
    (h : IsUploadPath imagesDir id path) :
    IsDirectChild imagesDir path := by
  obtain ⟨extension, hextension, rfl⟩ := h
  refine ⟨_, rfl, ?_, ?_⟩
  · intro hmem
    have hlong : ∀ name ∈ ["", ".", ".."], name.toList.length ≤ 2 := by
      decide
    have hlength := hlong _ hmem
    simp only [String.toList_append, List.length_append, uuidText_length] at hlength
    omega
  · have hplain : ∀ extension ∈ imageExtensions, '/' ∉ extension.toList := by
      decide
    have hdot : '/' ∉ ".".toList := by
      decide
    simp only [String.toList_append, List.mem_append, not_or]
    exact ⟨⟨slash_not_mem_uuidText id, hdot⟩, hplain extension hextension⟩

/-- The name of an uploaded image starts with the 36 characters of its id. -/
theorem IsUploadPath.id_unique
    {imagesDir path : PathBuf} {id id' : Uuid}
    (h : IsUploadPath imagesDir id path)
    (h' : IsUploadPath imagesDir id' path) :
    id = id' := by
  obtain ⟨extension, -, rfl⟩ := h
  obtain ⟨extension', -, heq⟩ := h'
  have hname := List.singleton_inj.mp (List.append_cancel_left heq)
  have htext := congrArg String.toList hname
  simp only [String.toList_append, List.append_assoc] at htext
  have hids := (List.append_inj htext (by rw [uuidText_length, uuidText_length])).1
  exact uuidText_injective (String.toList_inj.mp hids)

end Paths
end FlorenceServer
