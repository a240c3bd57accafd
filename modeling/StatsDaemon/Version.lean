namespace StatsDaemon

def programName : String := "tally"

def version : String := "0.4.0"

end StatsDaemon
