/-!
# Status codes

The standard descriptions of response codes, the encodings of every body, and the pointer to a
schema.
-/

namespace ApiDocs

namespace Status

def success : List (String × String) := [
  ("200", "OK"),
  ("201", "Created"),
  ("202", "Accepted"),
  ("203", "Non-Authoritative Information"),
  ("204", "No Content"),
  ("205", "Reset Content"),
  ("206", "Partial Content"),
  ("301", "Moved Permanently"),
  ("302", "Found"),
  ("304", "Not Modified"),
  ("307", "Temporary Redirect"),
  ("308", "Permanent Redirect")]

def errors : List (String × String) := [
  ("400", "Bad Request"),
  ("401", "Unauthorized"),
  ("403", "Forbidden"),
  ("404", "Not Found"),
  ("405", "Method Not Allowed"),
  ("406", "Not Acceptable"),
  ("408", "Request Timeout"),
  ("409", "Conflict"),
  ("410", "Gone"),
  ("415", "Unsupported Media Type"),
  ("422", "Unprocessable Entity"),
  ("423", "Locked"),
  ("424", "Failed Dependency"),
  ("426", "Upgrade Required"),
  ("428", "Precondition Required"),
  ("429", "Too Many Requests"),
  ("431", "Request Header Fields Too Large"),
  ("451", "Unavailable For Legal Reasons"),
  ("500", "Internal Server Error"),
  ("501", "Not Implemented"),
  ("502", "Bad Gateway"),
  ("503", "Service Unavailable"),
  ("504", "Gateway Timeout"),
  ("505", "HTTP Version Not Supported"),
  ("507", "Insufficient Storage"),
  ("511", "Network Authentication Required")]

def description (code : String) : String :=
  ((success ++ errors).lookup code).getD "Unknown response code"

end Status

def contentTypes : List String :=
  ["application/json", "application/x-www-form-urlencoded", "multipart/form-data"]

def schemaPointer : String := "#/components/schemas/"

def schemaRef (name : String) : String := schemaPointer ++ name

end ApiDocs
