import ApiDocs.Disk.Basic

/-!
# Viewer pages

A page that shows a document, with its stylesheet and its script beside it. Files that exist already are
left as they are, so a second export fetches nothing.
-/

namespace ApiDocs

structure ViewerConfig where
  exportPath : String := ""
  /-- The name of the page, `index.html` if empty. -/
  htmlFileName : String := ""
  title : String := ""
  /-- The address that the export is served at. -/
  serveUri : String := ""
deriving Repr, DecidableEq, Inhabited

namespace Viewer

def cssFileName : String := "swagger-ui.css"
def jsFileName : String := "swagger-ui-bundle.js"
def assetsDirectory : String := "assets"
def cssUrl : String := "https://unpkg.com/swagger-ui-dist@5/" ++ cssFileName
def jsUrl : String := "https://unpkg.com/swagger-ui-dist@5/" ++ jsFileName

/-! ## Pages -/

def trimSlashes (s : String) : String :=
  String.ofList (((s.toList.dropWhile (· == '/')).reverse.dropWhile (· == '/')).reverse)

/-- Segments with single slashes between them; a slash in front of the first one stays. -/
def joinUri (segments : List String) : String :=
  let joined := "/".intercalate ((segments.map trimSlashes).filter fun s => !s.isEmpty)
  if segments.head?.any fun s => s.toList.head? == some '/' then "/" ++ joined else joined

structure Links where
  document : String
  css : String
  js : String
deriving Repr, DecidableEq

def Links.ofServed (serveUri fileName : String) : Links where
  document := joinUri [serveUri, fileName]
  css := joinUri [serveUri, assetsDirectory, cssFileName]
  js := joinUri [serveUri, assetsDirectory, jsFileName]

def page (title : String) (links : Links) : String :=
  "\n".intercalate [
    "<!DOCTYPE html>",
    "<html lang=\"en\">",
    "  <head>",
    "    <meta charset=\"utf-8\" />",
    "    <meta name=\"viewport\" content=\"width=device-width, initial-scale=1\" />",
    "    <meta name=\"description\" content=\"SwaggerUI\" />",
    "    <title>" ++ title ++ "</title>",
    "    <link rel=\"stylesheet\" href=\"" ++ links.css ++ "\" />",
    "  </head>",
    "  <body>",
    "    <div id=\"swagger-ui\"></div>",
    "    <script src=\"" ++ links.js ++ "\" crossorigin></script>",
    "    <script>",
    "      window.onload = () => \x7b",
    "        window.ui = SwaggerUIBundle(\x7b",
    "          url: '" ++ links.document ++ "',",
    "          dom_id: '#swagger-ui',",
    "          presets: [",
    "            SwaggerUIBundle.presets.apis,",
    "          ],",
    "        \x7d);",
    "      \x7d;",
    "    </script>",
    "  </body>",
    "</html>",
    ""]

end Viewer

/-! ## Export -/

inductive ExportError where
  | directory (path : String) (cause : DiskError)
  | write (path : String) (cause : DiskError)
  | fetch (url : String)
deriving Repr, DecidableEq

def ExportError.message : ExportError → String
  | directory path cause => "failed to prepare directory " ++ path ++ ": " ++ cause.message
  | write path cause => "failed to write " ++ path ++ ": " ++ cause.message
  | fetch url => "failed to fetch " ++ url

abbrev Fetch := String → Option ByteArray

namespace Viewer

def writeFile (path : String) (content : ByteArray) (d : Disk) : Except ExportError Unit × Disk :=
  match d.write path content with
  | .ok d => (.ok (), d)
  | .error cause => (.error (.write path cause), d)

/-- Fetches a file that is not there. -/
def writeAsset (fetch : Fetch) (path url : String) (d : Disk) : Except ExportError Unit × Disk :=
  if d.contains path then (.ok (), d)
  else match fetch url with
    | some content => writeFile path content d
    | none => (.error (.fetch url), d)

def pageName (c : ViewerConfig) : String :=
  if c.htmlFileName.isEmpty then "index.html" else c.htmlFileName

def writePage (c : ViewerConfig) (fileName : String) (d : Disk) : Except ExportError Unit × Disk :=
  let path := Path.join c.exportPath (pageName c)
  if d.contains path then (.ok (), d)
  else writeFile path (page c.title (.ofServed c.serveUri fileName)).toUTF8 d

/-- Writes the page for a document file, after its assets. -/
def exportTo (fetch : Fetch) (c : ViewerConfig) (fileName : String) (d : Disk) :
    Except ExportError Unit × Disk :=
  let assets := Path.join c.exportPath assetsDirectory
  match d.makeDirectories assets with
  | (.error cause, d) => (.error (.directory assets cause), d)
  | (.ok (), d) =>
    match writeAsset fetch (Path.join assets cssFileName) cssUrl d with
    | (.error e, d) => (.error e, d)
    | (.ok (), d) =>
      match writeAsset fetch (Path.join assets jsFileName) jsUrl d with
      | (.error e, d) => (.error e, d)
      | (.ok (), d) => writePage c fileName d

end Viewer

end ApiDocs
